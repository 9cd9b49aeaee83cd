import ClassDiagram.Proofs.Printed.Accessor

/-!
# The declarations in a list of properties

The properties found in a list of properties are those that are written. The fields found there are
the accessors that look like one, and no methods are found.
-/

namespace ClassDiagram.Printed

open Text Source

variable {language : Language}

/-- What may be found in a list of properties. -/
inductive Entry (language : Language)
  | property (m : PropertyText language)
  | accessor (a : AccessorText language)

/-- Accessors one after the other from a byte offset on, each with the offset of its first word. -/
def placedAccessors (offset : Nat) : List (AccessorText language) → List (Nat × Entry language)
  | [] => []
  | a :: as =>
    (offset + byteLength a.before.text, .accessor a) ::
      placedAccessors (offset + byteLength (a.shown Stretch.skeleton)) as

/-- A property up to the brace of its accessor list. -/
def PropertyText.front (m : PropertyText language) : List Char :=
  m.leading.text ++ (m.declarator.text ++ (m.before.text ++ ['{']))

theorem PropertyText.shown_eq (m : PropertyText language) (view : Stretch → List Char) :
    m.shown view = m.front ++ (m.accessors.flatMap (·.shown view) ++
      (m.after.text ++ '}' :: m.appendix view)) := by
  simp [shown, ending, front]

/-- A property at a byte offset and its accessors. -/
def PropertyText.entries (m : PropertyText language) (offset : Nat) :
    List (Nat × Entry language) :=
  (offset + byteLength m.leading.text, .property m) ::
    placedAccessors (offset + byteLength m.front) m.accessors

/-- Properties one after the other from a byte offset on, each with its accessors. -/
def placedProperties (offset : Nat) : List (PropertyText language) → List (Nat × Entry language)
  | [] => []
  | m :: ms =>
    m.entries offset ++ placedProperties (offset + byteLength (m.shown Stretch.skeleton)) ms

/-- Of the entries at their offsets, those that a form finds. -/
def found (phrase? : Entry language → Option Member.Phrase)
    (entries : List (Nat × Entry language)) : List (Nat × Member.Phrase) :=
  entries.filterMap fun (o, e) => (phrase? e).map (o, ·)

/-- Wherever an accessor stands, a form finds there what is told of it. -/
def FindsInAccessors (form : Member.Form) (phrase? : Entry language → Option Member.Phrase) :
    Prop :=
  ∀ (a : AccessorText language) {before : Option Char}, startsWord before = true →
    ∀ offset further, Yields form.recognize (·.text.length) before offset
      (a.shown Stretch.skeleton) further
      ((phrase? (.accessor a)).map (offset + byteLength a.before.text, ·)).toList

/-- Wherever a property stands, a form finds there what is told of it and its accessors. -/
def FindsInProperties (form : Member.Form) (phrase? : Entry language → Option Member.Phrase) :
    Prop :=
  ∀ (m : PropertyText language) {before : Option Char}, startsWord before = true →
    ∀ offset further, Yields form.recognize (·.text.length) before offset
      (m.shown Stretch.skeleton) further (found phrase? (m.entries offset))

/-! ## What the forms find in a property -/

/-- What a property declaration is recognized with: everything up to its first accessor. -/
def PropertyText.opening (m : PropertyText language) : List Char :=
  m.before.text ++ '{' :: (m.first.before.text ++
    (accessTexts m.first.access ++ m.first.keyword.toList))

def Entry.fieldPhrase? : Entry language → Option Member.Phrase
  | .property _ => none
  | .accessor a => a.fieldPhrase?

def Entry.propertyPhrase? : Entry language → Option Member.Phrase
  | .property m => some (m.declarator.phrase m.opening none)
  | .accessor _ => none

section Form

variable {form : Member.Form} {ends : List Char} (hform : form.Breaks ends)
  (haccess : form.access = language.accessKeywords)
  {phrase? : Entry language → Option Member.Phrase}

theorem yields_accessors
    (h : FindsInAccessors form phrase?)
    (as : List (AccessorText language)) {before : Option Char} (hbefore : startsWord before = true)
    (offset : Nat) (further : List Char) :
    Yields form.recognize (·.text.length) before offset (as.flatMap (·.shown Stretch.skeleton))
      further (found phrase? (placedAccessors offset as)) := by
  induction as generalizing before offset with
  | nil => exact isQuiet_nil.yields
  | cons a as ih =>
      have hboth := (h a hbefore offset _).append
        (ih (a.last before) (offset + byteLength (a.shown Stretch.skeleton)))
      rw [List.flatMap_cons, placedAccessors, found, List.filterMap_cons]
      dsimp only
      cases hphrase : phrase? (.accessor a) with
      | none => simpa [hphrase, found] using hboth
      | some p => simpa [hphrase, found] using hboth

include hform haccess

theorem PropertyText.isQuiet_closing (m : PropertyText language) {before : Option Char}
    {further : List Char} :
    IsQuiet form.recognize before (m.after.text ++ '}' :: m.appendix Stretch.skeleton) further := by
  have hopens := hform.opensWith
  have hwords := hform.access
  refine isQuiet_blanks_append hopens hwords m.after.blank
    (isQuiet_cons hopens hwords (by decide +kernel) ?_)
  rw [appendix]
  rcases m.initializer with _ | ⟨gap, s⟩
  · exact isQuiet_nil
  · refine isQuiet_blanks_append hopens hwords gap.blank ?_
    exact isQuiet_initialized hopens hwords (some s.toStretch) fun t ht => by
      obtain rfl := Option.some.inj ht
      exact haccess ▸ s.quiet

/-- A form that asks for another mark than a brace finds in a property what it finds in the
accessors. -/
theorem findsInProperties_of_mark (hmark : '{' ∉ ends)
    (hproperty : ∀ m, phrase? (.property m) = none) (h : FindsInAccessors form phrase?) :
    FindsInProperties form phrase? := by
  intro m before hbefore offset further
  have hopens := hform.opensWith
  have hwords := hform.access
  have hbreaks : ∀ rest, BreaksWith '{' ((m.before.text ++ ['{']) ++ rest) := fun rest =>
    ⟨rfl, m.before.text, rest, m.before.blank, by simp⟩
  have hfront : ∀ rest, IsQuiet form.recognize before m.front rest := fun rest => by
    refine isQuiet_blanks_append hopens hwords m.leading.blank
      (IsQuiet.append (m.declarator.isQuiet hform hmark (hbreaks rest) _) ?_)
    exact isQuiet_blanks_append hopens hwords m.before.blank
      (isQuiet_cons hopens hwords (by decide +kernel) isQuiet_nil)
  have hlast : startsWord (lastOf before m.front) = true := by
    have hbrace : startsWord (some '{') = true := by decide +kernel
    simpa [PropertyText.front] using hbrace
  have hfound : found phrase? (m.entries offset) =
      [] ++ (found phrase? (placedAccessors (offset + byteLength m.front) m.accessors) ++ []) := by
    simp [PropertyText.entries, found, hproperty]
  rw [m.shown_eq, hfound]
  exact (hfront _).yields.append ((yields_accessors h m.accessors hlast _ _).append
    (m.isQuiet_closing hform haccess).yields)

end Form

theorem findsInProperties_fieldForm : FindsInProperties (Member.fieldForm language)
    (Entry.fieldPhrase? : Entry language → Option Member.Phrase) :=
  findsInProperties_of_mark (Member.fieldForm_breaks language) rfl (by decide) (fun _ => rfl)
    fun a _ hbefore offset further => a.yields_fieldForm hbefore offset further

theorem findsInProperties_methodForm : FindsInProperties (Member.methodForm language)
    (fun _ => none : Entry language → Option Member.Phrase) := by
  have hform := Member.methodForm_breaks language
  refine findsInProperties_of_mark hform rfl (by decide) (fun _ => rfl) fun a _ _ _ _ =>
    IsQuiet.yields (a.isQuiet_of_mark hform rfl ?_)
  cases a.body <;> simp [AccessorBody.mark]

theorem found_propertyPhrase? (offset : Nat) (as : List (AccessorText language)) :
    found Entry.propertyPhrase? (placedAccessors offset as) = [] := by
  induction as generalizing offset with
  | nil => rfl
  | cons a as ih => exact ih _

theorem findsInProperties_propertyForm : FindsInProperties (Member.propertyForm language)
    (Entry.propertyPhrase? : Entry language → Option Member.Phrase) := by
  intro m before hbefore offset further
  have hform := Member.propertyForm_breaks language
  let p := m.declarator.phrase m.opening none
  let after := m.first.ending Stretch.skeleton ++ (m.others.flatMap (·.shown Stretch.skeleton) ++
    (m.after.text ++ '}' :: m.appendix Stretch.skeleton))
  have hparts : m.shown Stretch.skeleton = m.leading.text ++ (p.text ++ after) := by
    simp [p, after, PropertyText.shown, PropertyText.ending, PropertyText.accessors,
      Declarator.text_phrase, PropertyText.opening, AccessorText.shown, AccessorText.bare]
  have hread :
      (Member.propertyForm language).recognize (p.text ++ (after ++ further)) = some p := by
    have hbreaks : BreaksWith '{' (m.opening ++ (after ++ further)) :=
      ⟨rfl, m.before.text, _, m.before.blank, by rw [PropertyText.opening, List.append_assoc]; rfl⟩
    have hhead : ∀ c ∈ (after ++ further).head?, isWord c = false := by
      rw [List.append_assoc]
      exact (m.first.breaksWith _).startsWithBreak.head
    rw [Declarator.text_phrase, List.append_assoc]
    exact m.declarator.isReadBy_propertyForm '{' _ _ _ hbreaks
      (propertyTail_opening m.before m.first.before m.first.access m.first.mem hhead)
  have hne : p.text ≠ [] := by
    rw [Declarator.text_phrase, Declarator.text]
    simp [(isIdentifier_accessKeywords language _ m.declarator.access_mem).ne_nil]
  have hothers : ∀ before further, IsQuiet (Member.propertyForm language).recognize before
      (m.others.flatMap (·.shown Stretch.skeleton)) further := by
    induction m.others with
    | nil => exact fun _ _ => isQuiet_nil
    | cons a others ih =>
        intro before further
        rw [List.flatMap_cons]
        exact a.isQuiet_propertyForm.append (ih _ _)
  have hquiet : ∀ before, IsQuiet (Member.propertyForm language).recognize before after further :=
    fun before => (m.first.isQuiet_ending hform rfl).append
      ((hothers _ _).append (m.isQuiet_closing hform rfl))
  have hfound : found Entry.propertyPhrase? (m.entries offset) =
      [] ++ ([(offset + byteLength m.leading.text, p)] ++ []) :=
    congrArg ((offset + byteLength m.leading.text, p) :: ·) (found_propertyPhrase? _ m.accessors)
  rw [hparts, hfound]
  refine (isQuiet_blanks hform m.leading.blank _ _).yields.append (Yields.append ?_
    (hquiet _).yields)
  exact .phrase (startsWord_lastOf_blanks hbefore m.leading.blank) hne hread rfl

/-! ## Lists of properties -/

theorem PropertyText.last (m : PropertyText language) (before : Option Char) :
    startsWord (lastOf before (m.shown Stretch.skeleton)) = true := by
  have hsemicolon : startsWord (some ';') = true := by decide +kernel
  have hbrace : startsWord (some '}') = true := by decide +kernel
  rcases hinitializer : m.initializer with _ | ⟨gap, s⟩
  · simpa [shown, ending, appendix, hinitializer, appended] using hbrace
  · simpa [shown, ending, appendix, hinitializer, appended] using hsemicolon

theorem yields_properties {form : Member.Form} {phrase? : Entry language → Option Member.Phrase}
    (h : FindsInProperties form phrase?) (ms : List (PropertyText language))
    {before : Option Char} (hbefore : startsWord before = true) (offset : Nat)
    (further : List Char) :
    Yields form.recognize (·.text.length) before offset (ms.flatMap (·.shown Stretch.skeleton))
      further (found phrase? (placedProperties offset ms)) := by
  induction ms generalizing before offset with
  | nil => exact isQuiet_nil.yields
  | cons m ms ih =>
      have hboth := (h m hbefore offset _).append
        (ih (m.last before) (offset + byteLength (m.shown Stretch.skeleton)))
      rw [List.flatMap_cons, placedProperties, found, List.filterMap_append]
      exact hboth

/-- The declarations of a form in a list of properties, with white space at the end. -/
theorem occurrences_properties {form : Member.Form} {ends : List Char} (hform : form.Breaks ends)
    {phrase? : Entry language → Option Member.Phrase} (h : FindsInProperties form phrase?)
    (ms : List (PropertyText language)) {closing : List Char}
    (hclosing : ∀ c ∈ closing, isBlank c = true) :
    form.occurrences (ms.flatMap (·.shown Stretch.skeleton) ++ closing) =
      found phrase? (placedProperties 0 ms) := by
  have hyields := (yields_properties h ms (rfl : startsWord none = true) 0 _).append
    (isQuiet_blanks hform hclosing _ []).yields
  rw [Yields, List.append_nil, List.append_nil] at hyields
  rw [Member.Form.occurrences, occurrences, hyields]
  exact List.append_nil _

/-! ## Where the accessors stand -/

theorem PropertyText.byteLength_code (m : PropertyText language) :
    byteLength (m.shown Stretch.code) = byteLength (m.shown Stretch.skeleton) := by
  have haccessors : byteLength (m.accessors.flatMap (·.shown Stretch.code)) =
      byteLength (m.accessors.flatMap (·.shown Stretch.skeleton)) := by
    induction m.accessors with
    | nil => rfl
    | cons a as ih => simp [a.byteLength_code, ih]
  have hinitializer : byteLength (m.appendix Stretch.code) =
      byteLength (m.appendix Stretch.skeleton) := by
    rw [appendix, appendix]
    rcases m.initializer with _ | ⟨gap, s⟩ <;> simp [appended, Stretch.byteLength_code]
  simp [shown, ending, haccessors, hinitializer]

/-- A placed accessor stands in the code at the offset that is told. -/
theorem exists_code_of_mem_placedAccessors {offset o : Nat} {as : List (AccessorText language)}
    {e : Entry language} (h : (o, e) ∈ placedAccessors offset as) :
    ∃ a front back, e = .accessor a ∧ o = offset + byteLength front ∧
      as.flatMap (·.shown Stretch.code) = front ++ (a.bare Stretch.code ++ back) := by
  induction as generalizing offset with
  | nil => exact absurd h List.not_mem_nil
  | cons b as ih =>
      rcases List.mem_cons.mp h with heq | hmem
      · obtain ⟨rfl, rfl⟩ := Prod.mk.inj heq
        exact ⟨b, b.before.text, as.flatMap (·.shown Stretch.code), rfl, rfl,
          by simp [AccessorText.shown]⟩
      · obtain ⟨a, front, back, rfl, rfl, hparts⟩ := ih hmem
        refine ⟨a, b.shown Stretch.code ++ front, back, rfl, ?_, ?_⟩
        · rw [byteLength_append, b.byteLength_code, Nat.add_assoc]
        · rw [List.flatMap_cons, hparts, List.append_assoc]

theorem exists_code_of_mem_placedProperties {offset o : Nat} {ms : List (PropertyText language)}
    {a : AccessorText language} (h : (o, .accessor a) ∈ placedProperties offset ms) :
    ∃ front back, o = offset + byteLength front ∧
      ms.flatMap (·.shown Stretch.code) = front ++ (a.bare Stretch.code ++ back) := by
  induction ms generalizing offset with
  | nil => exact absurd h List.not_mem_nil
  | cons m ms ih =>
      rcases List.mem_append.mp h with hmem | hmem
      · rcases List.mem_cons.mp hmem with heq | hmem
        · exact absurd (Prod.mk.inj heq).2 (by simp)
        · obtain ⟨_, front, back, heq, rfl, hparts⟩ := exists_code_of_mem_placedAccessors hmem
          obtain rfl := Entry.accessor.inj heq
          refine ⟨m.front ++ front, back ++ (m.after.text ++ '}' :: (m.appendix Stretch.code ++
            ms.flatMap (·.shown Stretch.code))), by rw [byteLength_append, Nat.add_assoc], ?_⟩
          simp [m.shown_eq, hparts]
      · obtain ⟨front, back, rfl, hparts⟩ := ih hmem
        refine ⟨m.shown Stretch.code ++ front, back, ?_, ?_⟩
        · rw [byteLength_append, m.byteLength_code, Nat.add_assoc]
        · rw [List.flatMap_cons, hparts, List.append_assoc]

/-- Every accessor starts behind the one before it. -/
theorem pairwise_placedAccessors (offset : Nat) (as : List (AccessorText language)) :
    (placedAccessors offset as).Pairwise (fun a b => a.1 < b.1) ∧
      ∀ e ∈ placedAccessors offset as, offset ≤ e.1 ∧
        e.1 < offset + byteLength (as.flatMap (·.shown Stretch.skeleton)) := by
  induction as generalizing offset with
  | nil => exact ⟨.nil, fun e he => absurd he List.not_mem_nil⟩
  | cons a as ih =>
      obtain ⟨hpairwise, hlater⟩ := ih (offset + byteLength (a.shown Stretch.skeleton))
      have hsize : byteLength a.before.text < byteLength (a.shown Stretch.skeleton) := by
        have hpos := byteLength_pos (isIdentifier_accessor a.keyword a.mem).ne_nil
        simp only [AccessorText.shown, AccessorText.bare, byteLength_append]
        omega
      refine ⟨List.pairwise_cons.mpr ⟨fun e he => ?_, hpairwise⟩, fun e he => ?_⟩
      · have := hlater e he
        dsimp only
        omega
      · rw [List.flatMap_cons, byteLength_append]
        rcases List.mem_cons.mp he with rfl | he
        · dsimp only
          omega
        · have := hlater e he
          omega

/-- Every entry starts behind the one before it. -/
theorem pairwise_placedProperties (offset : Nat) (ms : List (PropertyText language)) :
    (placedProperties offset ms).Pairwise (fun a b => a.1 < b.1) ∧
      ∀ e ∈ placedProperties offset ms, offset ≤ e.1 := by
  induction ms generalizing offset with
  | nil => exact ⟨.nil, fun e he => absurd he List.not_mem_nil⟩
  | cons m ms ih =>
      obtain ⟨hpairwise, hlater⟩ := ih (offset + byteLength (m.shown Stretch.skeleton))
      obtain ⟨haccessors, hplaces⟩ :=
        pairwise_placedAccessors (offset + byteLength m.front) m.accessors
      have hfront : byteLength m.leading.text < byteLength m.front := by
        have hpos := byteLength_pos
          (isIdentifier_accessKeywords language _ m.declarator.access_mem).ne_nil
        simp only [PropertyText.front, Declarator.text, byteLength_append]
        omega
      have hsize : byteLength m.front + byteLength (m.accessors.flatMap (·.shown Stretch.skeleton))
          ≤ byteLength (m.shown Stretch.skeleton) := by
        rw [m.shown_eq, byteLength_append, byteLength_append]
        omega
      have hentries : ∀ e ∈ m.entries offset, offset ≤ e.1 ∧
          e.1 < offset + byteLength (m.shown Stretch.skeleton) := by
        intro e he
        rcases List.mem_cons.mp he with rfl | he
        · dsimp only
          omega
        · have := hplaces e he
          omega
      refine ⟨List.pairwise_append.mpr ⟨List.pairwise_cons.mpr ⟨fun e he => ?_, haccessors⟩,
        hpairwise, fun e he e' he' => ?_⟩, fun e he => ?_⟩
      · have := hplaces e he
        dsimp only
        omega
      · have := hentries e he
        have := hlater e' he'
        omega
      · rcases List.mem_append.mp he with he | he
        · exact (hentries e he).1
        · have := hlater e he
          omega

end ClassDiagram.Printed
