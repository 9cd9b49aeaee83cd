import ClassDiagram.Proofs.Printed.Quiet

/-!
# The declarations in a list of members

A form finds at most one declaration in a member, at its access keyword. So the declarations of a
form in a list of members are those of the single members, in order.
-/

namespace ClassDiagram.Printed

open Text Source

variable {language : Language}

/-- Members one after the other from a byte offset on, each with the offset of its access keyword.
-/
def placed (offset : Nat) : List (Member language) → List (Nat × Member language)
  | [] => []
  | m :: ms =>
    (offset + byteLength m.leading.text, m) ::
      placed (offset + byteLength (m.shown Stretch.skeleton)) ms

/-- A member without the white space in front of it. -/
def Member.bare (view : Stretch → List Char) (m : Member language) : List Char :=
  m.declarator.text ++ m.ending.shown view

/-- What may follow a member: white space, and then no initializer. -/
def Follows (further : List Char) : Prop := ∀ c ∈ (further.dropWhile isBlank).head?, c ≠ '='

/-- What a form finds in a member: nothing anywhere, or a phrase at its access keyword and nothing
after that. -/
inductive Finds (form : Member.Form) (m : Member language) : Option Member.Phrase → Prop
  | nothing (hquiet : ∀ before further,
      IsQuiet form.recognize before (m.bare Stretch.skeleton) further) : Finds form m none
  | phrase {p : Member.Phrase} (after : List Char)
      (hparts : m.bare Stretch.skeleton = p.text ++ after) (hne : p.text ≠ [])
      (hread : ∀ further, Follows further →
        form.recognize (m.bare Stretch.skeleton ++ further) = some p)
      (hquiet : ∀ before further, IsQuiet form.recognize (lastOf before p.text) after further) :
      Finds form m (some p)

theorem Ending.last (e : Ending language) (view : Stretch → List Char) (before : Option Char) :
    startsWord (lastOf before (e.shown view)) = true := by
  have hsemicolon : startsWord (some ';') = true := by decide +kernel
  have hbrace : startsWord (some '}') = true := by decide +kernel
  cases e with
  | field gap initializer => cases initializer <;> simpa [shown, initialized] using hsemicolon
  | method gap parameters clauses body =>
      cases body with
      | none => simpa [shown, bodied] using hsemicolon
      | some s => simpa [shown, bodied] using hbrace
  | property hcsharp accessors initializer =>
      cases initializer with
      | none => simpa [shown, appended, Accessors.text] using hbrace
      | some s => simpa [shown, appended] using hsemicolon

variable {form : Member.Form} {ends : List Char}

theorem isQuiet_blanks (hform : form.Breaks ends) {gap : List Char}
    (hgap : ∀ c ∈ gap, isBlank c = true) (before : Option Char) (further : List Char) :
    IsQuiet form.recognize before gap further :=
  isQuiet_of_not_isWord hform.opensWith hform.access (fun c hc => isWord_of_isBlank (hgap c hc))
    before further

/-- The occurrences in a text that starts with a member. -/
theorem Finds.occurrencesFrom (hform : form.Breaks ends) {m : Member language}
    {found : Option Member.Phrase} (h : Finds form m found) {before : Option Char}
    (hbefore : startsWord before = true) (offset : Nat) {rest : List Char} (hrest : Follows rest) :
    occurrencesFrom form.recognize (·.text.length) 0 before offset
        (m.shown Stretch.skeleton ++ rest) =
      (found.map (offset + byteLength m.leading.text, ·)).toList ++
        occurrencesFrom form.recognize (·.text.length) 0
          (lastOf before (m.shown Stretch.skeleton))
          (offset + byteLength (m.shown Stretch.skeleton)) rest := by
  have hstart := startsWord_lastOf_blanks hbefore m.leading.blank
  have hshown : m.shown Stretch.skeleton = m.leading.text ++ m.bare Stretch.skeleton := rfl
  rw [hshown, List.append_assoc,
    occurrencesFrom_of_quiet _ (isQuiet_blanks hform m.leading.blank _ _), lastOf_append,
    byteLength_append, ← Nat.add_assoc]
  cases h with
  | nothing hquiet => rw [occurrencesFrom_of_quiet _ (hquiet _ _)]; rfl
  | @phrase p after hparts hne hread hquiet =>
      have hread := hread rest hrest
      rw [hparts, List.append_assoc] at hread ⊢
      rw [occurrencesFrom_phrase hstart hne hread rfl, occurrencesFrom_of_quiet _ (hquiet _ _),
        lastOf_append, byteLength_append, ← Nat.add_assoc]
      rfl

/-- Members and white space at the end may follow a member. -/
theorem follows_members (ms : List (Member language)) {closing : List Char}
    (hclosing : ∀ c ∈ closing, isBlank c = true) :
    Follows (ms.flatMap (·.shown Stretch.skeleton) ++ closing) := by
  cases ms with
  | nil =>
      have hend : (closing ++ []).dropWhile isBlank = [] :=
        dropWhile_append_of_head hclosing (by simp)
      rw [List.append_nil] at hend
      rw [List.flatMap_nil, List.nil_append, Follows, hend]
      exact fun c hc => absurd hc (by simp)
  | cons m ms =>
      have haccess := isIdentifier_accessKeywords language _ m.declarator.access_mem
      have hparts : (m :: ms).flatMap (·.shown Stretch.skeleton) ++ closing =
          m.leading.text ++ (m.declarator.access.toList ++ (m.declarator.afterAccess ++
            (m.ending.shown Stretch.skeleton ++
              (ms.flatMap (·.shown Stretch.skeleton) ++ closing)))) := by
        simp [Member.shown, Declarator.text]
      rw [hparts, Follows, dropWhile_append_of_head m.leading.blank fun c hc =>
        isBlank_of_isWord (haccess.head _ c hc)]
      rintro c hc rfl
      exact absurd (haccess.head _ '=' hc) (by decide +kernel)

theorem occurrences_members (hform : form.Breaks ends) {ms : List (Member language)}
    {found : Member language → Option Member.Phrase} (h : ∀ m ∈ ms, Finds form m (found m))
    {closing : List Char} (hclosing : ∀ c ∈ closing, isBlank c = true) :
    form.occurrences (ms.flatMap (·.shown Stretch.skeleton) ++ closing) =
      (placed 0 ms).filterMap fun (o, m) => (found m).map (o, ·) := by
  -- Each member ends with a mark, so a word may start in front of the next one.
  have hfrom : ∀ before offset, startsWord before = true →
      Source.occurrencesFrom form.recognize (·.text.length) 0 before offset
          (ms.flatMap (·.shown Stretch.skeleton) ++ closing) =
        (placed offset ms).filterMap fun (o, m) => (found m).map (o, ·) := by
    induction ms with
    | nil =>
        intro before offset _
        have hnone := occurrencesFrom_of_quiet (·.text.length) (b := [])
          (isQuiet_blanks hform hclosing before []) offset
        rw [List.append_nil] at hnone
        exact hnone
    | cons m ms ih =>
        intro before offset hbefore
        have hlast : startsWord (lastOf before (m.shown Stretch.skeleton)) = true := by
          rw [Member.shown, lastOf_append, lastOf_append]
          exact m.ending.last _ _
        rw [List.flatMap_cons, List.append_assoc,
          (h m List.mem_cons_self).occurrencesFrom hform hbefore _ (follows_members ms hclosing),
          ih (fun n hn => h n (List.mem_cons_of_mem _ hn)) _ _ hlast, placed, List.filterMap_cons]
        dsimp only
        cases found m <;> rfl
  exact hfrom none 0 rfl

/-! ## What the forms find in a member -/

/-- A member of which no stretch mentions one of the words. -/
def Member.Lacks (words : List String) (m : Member language) : Prop :=
  ∀ s ∈ m.ending.stretches, mentions words none s.skeleton = false

instance (words : List String) (m : Member language) : Decidable (m.Lacks words) :=
  inferInstanceAs (Decidable (∀ s ∈ m.ending.stretches, _))

/-- A form finds nothing in a member of another kind. -/
theorem Finds.of_mark (hform : form.Breaks ends)
    (hsub : ∀ w ∈ form.access, w ∈ language.accessKeywords) {m : Member language}
    (hlacks : m.Lacks form.access) (hmark : m.ending.mark ∉ ends) : Finds form m none := by
  refine .nothing fun before further => ?_
  have hbreaks := m.ending.breaksWith Stretch.skeleton further
  exact (m.declarator.isQuiet hform hmark hbreaks before).append
    (m.ending.isQuiet hform hsub hlacks)

/-- A form finds a member that it recognizes at its access keyword. -/
theorem Finds.of_isReadBy (hform : form.Breaks ends)
    (hsub : ∀ w ∈ form.access, w ∈ language.accessKeywords) {m : Member language}
    (hlacks : m.Lacks form.access) (hread : m.declarator.IsReadBy form) {tail : List Char}
    (after : List Char) {initializer : Option (List Char)}
    (hending : m.ending.shown Stretch.skeleton = tail ++ after)
    (htail : ∀ further, Follows further →
      form.tail (tail ++ (after ++ further)) = some (tail, initializer)) :
    Finds form m (some (m.declarator.phrase tail initializer)) := by
  have htext := m.declarator.text_phrase tail initializer
  refine .phrase after ?_ ?_ (fun further hfurther => ?_) fun before further => ?_
  · rw [Member.bare, hending, htext, List.append_assoc]
  · have hne := (isIdentifier_accessKeywords language _ m.declarator.access_mem).ne_nil
    rw [htext, Declarator.text]
    simp [hne]
  · have hbreaks := m.ending.breaksWith Stretch.skeleton further
    rw [hending, List.append_assoc] at hbreaks
    rw [Member.bare, hending, List.append_assoc, List.append_assoc]
    exact hread _ _ tail initializer hbreaks (htail further hfurther)
  · have hquiet : IsQuiet form.recognize (lastOf before m.declarator.text)
        (m.ending.shown Stretch.skeleton) further := m.ending.isQuiet hform hsub hlacks
    rw [hending] at hquiet
    rw [htext, lastOf_append]
    exact hquiet.of_append

/-- The part of an initializer that a field declaration is recognized with. -/
def Stretch.untilSemicolon (s : Stretch) : List Char := s.skeleton.takeWhile (· ≠ ';')

def Member.fieldPhrase? (m : Member language) : Option Member.Phrase :=
  match m.ending with
  | .field gap none => some (m.declarator.phrase (gap.text ++ [';']) none)
  | .field gap (some s) =>
    some (m.declarator.phrase (gap.text ++ '=' :: (s.untilSemicolon ++ [';'])) s.untilSemicolon)
  | _ => none

def Member.methodPhrase? (m : Member language) : Option Member.Phrase :=
  match m.ending with
  | .method gap _ _ _ => some (m.declarator.phrase (gap.text ++ ['(']) none)
  | _ => none

/-- What a property declaration is recognized with: everything up to its first accessor. -/
def Accessors.opening (accessors : Accessors language) : List Char :=
  accessors.before.text ++ '{' :: (accessors.getter.before.text ++
    (accessText accessors.getter.access ++ accessors.getter.keyword.toList))

def Member.propertyPhrase? (m : Member language) : Option Member.Phrase :=
  match m.ending with
  | .property _ accessors _ => some (m.declarator.phrase accessors.opening none)
  | _ => none

/-- An initializer with its semicolon, divided at its first semicolon. -/
theorem Stretch.exists_afterSemicolon (s : Stretch) :
    (∀ c ∈ s.untilSemicolon, decide (c ≠ ';') = true) ∧
      ∃ after, s.skeleton ++ [';'] = s.untilSemicolon ++ ';' :: after := by
  refine ⟨fun c hc => List.all_eq_true.mp List.all_takeWhile c hc, ?_⟩
  rw [untilSemicolon]
  induction s.skeleton with
  | nil => exact ⟨[], rfl⟩
  | cons c cs ih =>
      rw [List.takeWhile_cons]
      split
      next =>
        obtain ⟨after, hafter⟩ := ih
        exact ⟨after, by rw [List.cons_append, hafter, List.cons_append]⟩
      next hc =>
        obtain rfl : c = ';' := by simpa using hc
        exact ⟨cs ++ [';'], rfl⟩

/-- A form with the tail of a field finds the fields whose declarators it reads. -/
theorem Finds.field (hform : form.Breaks ends)
    (hsub : ∀ w ∈ form.access, w ∈ language.accessKeywords) (hfield : form.tail = Member.fieldTail)
    {m : Member language} (hlacks : m.Lacks form.access) (hread : m.declarator.IsReadBy form)
    {gap : Blanks} {initializer : Option Stretch} (hending : m.ending = .field gap initializer) :
    Finds form m m.fieldPhrase? := by
  cases initializer with
  | none =>
      rw [Member.fieldPhrase?, hending]
      refine .of_isReadBy hform hsub hlacks hread [] ?_ fun further _ => ?_
      · rw [hending]
        exact (List.append_nil _).symm
      · rw [hfield, List.append_assoc]
        exact Member.fieldTail_semicolon gap.blank further
  | some s =>
      obtain ⟨huntil, after, hafter⟩ := s.exists_afterSemicolon
      rw [Member.fieldPhrase?, hending]
      refine .of_isReadBy hform hsub hlacks hread after ?_ fun further _ => ?_
      · rw [hending, Ending.shown, initialized, hafter]
        simp
      · have htail := Member.fieldTail_initializer gap.blank huntil (after ++ further)
        rw [hfield]
        simpa using htail

theorem finds_fieldForm {m : Member language} (hlacks : m.Lacks language.accessKeywords) :
    Finds (Member.fieldForm language) m m.fieldPhrase? := by
  have hform := Member.fieldForm_breaks language
  have hread := m.declarator.isReadBy_fieldForm
  obtain ⟨leading, d, ending⟩ := m
  cases ending with
  | field gap initializer => exact .field hform (fun _ hw => hw) rfl hlacks hread rfl
  | method gap parameters clauses body =>
      exact .of_mark hform (fun _ hw => hw) hlacks (by simp [Ending.mark])
  | property hcsharp accessors initializer =>
      exact .of_mark hform (fun _ hw => hw) hlacks (by simp [Ending.mark])

theorem finds_methodForm {m : Member language} (hlacks : m.Lacks language.accessKeywords) :
    Finds (Member.methodForm language) m m.methodPhrase? := by
  have hform := Member.methodForm_breaks language
  have hread := m.declarator.isReadBy_methodForm
  obtain ⟨leading, d, ending⟩ := m
  cases ending with
  | field gap initializer =>
      refine .of_mark hform (fun _ hw => hw) hlacks ?_
      cases initializer <;> simp [Ending.mark]
  | method gap parameters clauses body =>
      refine .of_isReadBy hform (fun _ hw => hw) hlacks hread (parameters.skeleton ++
        ')' :: (clauses.skeleton ++ bodied Stretch.skeleton body)) ?_ fun further _ => ?_
      · simp [Ending.shown]
      · have htail := Member.methodTail_parenthesis gap.blank (parameters.skeleton ++
          ')' :: (clauses.skeleton ++ bodied Stretch.skeleton body) ++ further)
        change Member.methodTail _ = _
        simpa using htail
  | property hcsharp accessors initializer =>
      exact .of_mark hform (fun _ hw => hw) hlacks (by simp [Ending.mark])

/-- The accessor keywords are no access keywords and do not start like one. -/
theorem prefixFree_accessor (language : Language) : ∀ w ∈ ["get", "set", "init"],
    PrefixFree (w :: language.accessKeywords) ∧ w ∉ language.accessKeywords := by
  cases language <;> decide

theorem isIdentifier_accessor : ∀ w ∈ ["get", "set", "init"], IsIdentifier w.toList := by decide

theorem head_accessTexts (access : List (Access language)) {w : String}
    (hw : w ∈ ["get", "set", "init"]) (rest : List Char) :
    ∀ c ∈ (accessTexts access ++ (w.toList ++ rest)).head?, isBlank c = false := by
  intro c hc
  apply isBlank_of_isWord
  cases access with
  | nil => exact (isIdentifier_accessor w hw).head rest c hc
  | cons a access =>
      rw [accessTexts, List.flatMap_cons, List.append_assoc, List.append_assoc] at hc
      exact (isIdentifier_accessKeywords language a.word a.mem).head _ c hc

/-- The access words of an accessor are read up to the keyword of the accessor. -/
theorem accessWords_accessor (access : List (Access language)) {w : String}
    (hw : w ∈ ["get", "set", "init"]) (rest : List Char) :
    accessWords language.accessKeywords
        (accessTexts access ++ (w.toList ++ rest)) = (accessTexts access, w.toList ++ rest) := by
  obtain ⟨hfree, hnot⟩ := prefixFree_accessor language w hw
  induction access with
  | nil => exact accessWords_of_no_word (Reader.word_append_eq_none hfree hnot rest)
  | cons a access ih =>
      have hgap : blanks? (a.gap.text ++ (accessTexts access ++ (w.toList ++ rest))) =
          some (a.gap.text, accessTexts access ++ (w.toList ++ rest)) :=
        blanks?_append a.gap.ne_nil a.gap.blank (head_accessTexts access hw rest)
      have hparts : accessTexts (a :: access) ++ (w.toList ++ rest) =
          a.word.toList ++ (a.gap.text ++ (accessTexts access ++ (w.toList ++ rest))) := by
        simp [accessTexts]
      rw [hparts,
        accessWords_word (Reader.word_append (prefixFree_accessKeywords language) a.mem _) hgap, ih]
      simp [accessTexts]

/-- The opening of an accessor list is what a property is recognized with. -/
theorem propertyTail_opening (before inside : Blanks) (access : List (Access language)) {w : String}
    (hw : w ∈ ["get", "set", "init"]) {rest : List Char}
    (hrest : ∀ c ∈ rest.head?, isWord c = false) :
    Member.propertyTail language.accessKeywords
        (before.text ++ '{' :: (inside.text ++ (accessTexts access ++ w.toList)) ++ rest) =
      some (before.text ++ '{' :: (inside.text ++ (accessTexts access ++ w.toList)), none) := by
  have hfree : PrefixFree ["get", "set", "init"] := by decide
  let words : Reader := fun cs => some (accessWords language.accessKeywords cs)
  have haccess : words (accessTexts access ++ (w.toList ++ rest)) =
      some (accessTexts access, w.toList ++ rest) :=
    congrArg some (accessWords_accessor access hw rest)
  have hread := Reader.sequence_cons
    (Reader.gap_append before.blank (forall_mem_head_cons (c := '{') (by decide) _))
    (Reader.sequence_cons (Reader.char_cons '{' _)
      (Reader.sequence_cons (Reader.gap_append inside.blank (head_accessTexts access hw rest))
        (Reader.sequence_cons (r := words) haccess
          (Reader.sequence_cons (Reader.word_append hfree hw rest)
            (Reader.sequence_singleton (Reader.wordEnd_of_head hrest))))))
  have hopening :
      before.text ++ '{' :: (inside.text ++ (accessTexts access ++ (w.toList ++ rest))) =
      before.text ++ '{' :: (inside.text ++ (accessTexts access ++ w.toList)) ++ rest := by simp
  rw [hopening] at hread
  rw [Member.propertyTail, hread]
  simp

theorem Accessors.propertyTail_opening (accessors : Accessors language) {rest : List Char}
    (hrest : ∀ c ∈ rest.head?, isWord c = false) :
    Member.propertyTail language.accessKeywords (accessors.opening ++ rest) =
      some (accessors.opening, none) := by
  have hw : accessors.getter.keyword ∈ ["get", "set", "init"] :=
    List.mem_cons.mpr (.inl (List.mem_singleton.mp accessors.getter.mem))
  rw [Accessors.opening, ← accessTexts_toList]
  exact Printed.propertyTail_opening accessors.before accessors.getter.before _ hw hrest

theorem finds_propertyForm {m : Member language} (hlacks : m.Lacks language.accessKeywords) :
    Finds (Member.propertyForm language) m m.propertyPhrase? := by
  have hform := Member.propertyForm_breaks language
  have hread := m.declarator.isReadBy_propertyForm
  obtain ⟨leading, d, ending⟩ := m
  cases ending with
  | field gap initializer =>
      refine .of_mark hform (fun _ hw => hw) hlacks ?_
      cases initializer <;> simp [Ending.mark]
  | method gap parameters clauses body =>
      exact .of_mark hform (fun _ hw => hw) hlacks (by simp [Ending.mark])
  | property hcsharp accessors initializer =>
      refine .of_isReadBy hform (fun _ hw => hw) hlacks hread (accessors.getter.after.text ++
        ';' :: (accessors.setter.text ++ (accessors.after.text ++
          '}' :: appended Stretch.skeleton initializer))) ?_ fun further _ => ?_
      · simp [Ending.shown, Accessors.text, Accessors.opening, Accessor.text]
      · apply accessors.propertyTail_opening
        rw [List.append_assoc, List.cons_append]
        exact forall_mem_head_blanks isWord_of_isBlank accessors.getter.after.blank
          (by decide +kernel) _

end ClassDiagram.Printed
