import ClassDiagram.Member.Form
import ClassDiagram.Proofs.Source.Mention
import ClassDiagram.Proofs.Source.Types

/-!
# Recognizing declarations

Between its access keyword and its name a declaration contains none of the characters
`;{}()=`. So the first of these characters after an access keyword decides which forms can be
recognized there: fields end with a semicolon or an equals sign, methods with a parenthesis, and
properties with a brace.
-/

namespace ClassDiagram

open Text Source

/-! ## Keywords -/

theorem prefixFree_accessKeywords (language : Language) : PrefixFree language.accessKeywords := by
  cases language <;> decide

theorem isIdentifier_accessKeywords (language : Language) :
    ∀ w ∈ language.accessKeywords, IsIdentifier w.toList := by
  cases language <;> decide

theorem prefixFree_declarationKeywords (language : Language) :
    PrefixFree language.declarationKeywords := by
  cases language <;> decide

theorem isIdentifier_declarationKeywords (language : Language) :
    ∀ w ∈ language.declarationKeywords, IsIdentifier w.toList := by
  cases language <;> decide

theorem isIdentifier_private : ∀ w ∈ ["private"], IsIdentifier w.toList := by decide

theorem prefixFree_modifiers : PrefixFree Language.modifiers := by decide +kernel

theorem isIdentifier_modifiers : ∀ w ∈ Language.modifiers, IsIdentifier w.toList := by
  decide +kernel

theorem prefixFree_holdingModifiers (language : Language) :
    PrefixFree language.holdingModifiers := by
  cases language <;> decide

theorem isIdentifier_holdingModifiers (language : Language) :
    ∀ w ∈ language.holdingModifiers, IsIdentifier w.toList := by
  cases language <;> decide

namespace Member

/-! ## What a form reads -/

/-- The parts of a recognized declaration, as the form reads them one after the other. -/
theorem Form.recognize_eq_some {form : Form} {cs : List Char} {p : Phrase}
    (h : form.recognize cs = some p) :
    ∃ afterAccess afterLead afterType afterGap afterName,
      Reader.word form.access cs = some (p.access, afterAccess) ∧
      (p.lead, afterLead) ∈ form.leads afterAccess ∧
      (p.type, afterType) ∈ form.types afterLead ∧
      Reader.space afterType = some (p.gap, afterGap) ∧
      Reader.identifier afterGap = some (p.name, afterName) ∧
      form.tail afterName = some (p.tail, p.initializer) := by
  simp only [Form.recognize, Option.bind_eq_bind, Option.bind_eq_some_iff] at h
  obtain ⟨⟨access, afterAccess⟩, haccess, h⟩ := h
  obtain ⟨⟨lead, afterLead⟩, hlead, h⟩ := List.exists_of_findSome?_eq_some h
  obtain ⟨⟨type, afterType⟩, htype, h⟩ := List.exists_of_findSome?_eq_some h
  simp only [Option.bind_eq_some_iff] at h
  obtain ⟨⟨gap, afterGap⟩, hgap, ⟨name, afterName⟩, hname, ⟨tail, initializer⟩, htail, heq⟩ := h
  obtain rfl := Option.some.inj heq
  exact ⟨afterAccess, afterLead, afterType, afterGap, afterName, haccess, hlead, htype, hgap,
    hname, htail⟩

/-- A declaration whose parts can be read one after the other is recognized, though perhaps with
other parts. -/
theorem Form.isSome_recognize {form : Form} {cs access afterAccess lead afterLead type afterType
      gap afterGap name afterName : List Char} {tail : List Char × Option (List Char)}
    (haccess : Reader.word form.access cs = some (access, afterAccess))
    (hlead : (lead, afterLead) ∈ form.leads afterAccess)
    (htype : (type, afterType) ∈ form.types afterLead)
    (hgap : Reader.space afterType = some (gap, afterGap))
    (hname : Reader.identifier afterGap = some (name, afterName))
    (htail : form.tail afterName = some tail) : (form.recognize cs).isSome = true := by
  rw [Form.recognize, haccess, Option.bind_eq_bind, Option.bind_some,
    List.findSome?_isSome_iff]
  refine ⟨_, hlead, ?_⟩
  rw [List.findSome?_isSome_iff]
  refine ⟨_, htype, ?_⟩
  simp only [hgap, hname, htail, Option.bind_eq_bind, Option.bind_some, Option.isSome_some]

theorem Form.recognize_append {form : Form} (hfree : PrefixFree form.access) {w : String}
    (hw : w ∈ form.access) {lead type gap name rest tail : List Char}
    {initializer : Option (List Char)}
    (hleads : ∃ others, form.leads (lead ++ (type ++ (gap ++ (name ++ rest)))) =
      (lead, type ++ (gap ++ (name ++ rest))) :: others)
    (htypes : ∃ others, form.types (type ++ (gap ++ (name ++ rest))) =
      (type, gap ++ (name ++ rest)) :: others)
    (hne : gap ≠ []) (hgap : ∀ c ∈ gap, isBlank c = true) (hname : IsIdentifier name)
    (hrest : ∀ c ∈ rest.head?, isWord c = false)
    (htail : form.tail rest = some (tail, initializer)) :
    form.recognize (w.toList ++ (lead ++ (type ++ (gap ++ (name ++ rest))))) =
      some ⟨w.toList, lead, type, gap, name, tail, initializer⟩ := by
  obtain ⟨otherLeads, hleads⟩ := hleads
  obtain ⟨otherTypes, htypes⟩ := htypes
  have hspace : Reader.space (gap ++ (name ++ rest)) = some (gap, name ++ rest) :=
    blanks?_append hne hgap fun c hc => isBlank_of_isWord (hname.head rest c hc)
  have hident : Reader.identifier (name ++ rest) = some (name, rest) :=
    Reader.named_append hname hrest
  simp only [Form.recognize, Reader.word_append hfree hw, hleads, htypes, hspace, hident, htail,
    List.findSome?_cons, Option.bind_eq_bind, Option.bind_some]

/-- What a form asks of a declaration, whatever its modifiers and its type: it starts with a word
and white space, it breaks nowhere up to the end of its name, and its tail then breaks with one of
the characters `ends`. -/
structure Form.Breaks (form : Form) (ends : List Char) : Prop where
  access : ∀ w ∈ form.access, IsIdentifier w.toList
  leads : ∀ {cs a rest}, (a, rest) ∈ form.leads cs → cs = a ++ rest ∧ Unbroken a ∧ a ≠ [] ∧
    ∀ c ∈ a.head?, isBlank c = true
  types : ∀ {cs a rest}, (a, rest) ∈ form.types cs → cs = a ++ rest ∧ Unbroken a ∧
    ∃ c ∈ a, isBlank c = false
  tail : ∀ {cs t i}, form.tail cs = some (t, i) → ∃ d ∈ ends, cs.find? endsArguments = some d

/-- A declaration stands in the text as it is divided. -/
theorem Form.Breaks.exists_afterName {form : Form} {ends : List Char} (hform : form.Breaks ends)
    {cs : List Char} {p : Phrase} (h : form.recognize cs = some p) :
    ∃ afterName, cs = p.access ++ (p.declarator ++ afterName) ∧
      form.tail afterName = some (p.tail, p.initializer) := by
  obtain ⟨afterAccess, afterLead, afterType, afterGap, afterName, haccess, hlead, htype, hgap,
    hname, htail⟩ := form.recognize_eq_some h
  obtain ⟨_, _, _, rfl⟩ := Reader.word_eq_some haccess
  obtain ⟨rfl, _⟩ := hform.leads hlead
  obtain ⟨rfl, _⟩ := hform.types htype
  obtain ⟨rfl, _⟩ := blanks?_eq_some hgap
  obtain ⟨rfl, _⟩ := Reader.named_eq_some hname
  exact ⟨afterName, by simp [Phrase.declarator], htail⟩

theorem Form.exists_access {form : Form} {cs : List Char} {p : Phrase}
    (h : form.recognize cs = some p) : ∃ w ∈ form.access, p.access = w.toList := by
  obtain ⟨_, _, _, _, _, haccess, _⟩ := form.recognize_eq_some h
  obtain ⟨w, hw, hwaccess, _⟩ := Reader.word_eq_some haccess
  exact ⟨w, hw, hwaccess⟩

theorem Form.isIdentifier_name {form : Form} {cs : List Char} {p : Phrase}
    (h : form.recognize cs = some p) : IsIdentifier p.name := by
  obtain ⟨_, _, _, _, _, _, _, _, _, hname, _⟩ := form.recognize_eq_some h
  exact (Reader.named_eq_some hname).2.1

theorem Form.Breaks.unbroken_declarator {form : Form} {ends : List Char}
    (hform : form.Breaks ends) {cs : List Char} {p : Phrase} (h : form.recognize cs = some p) :
    Unbroken p.declarator := by
  obtain ⟨_, _, _, _, _, _, hlead, htype, hgap, _⟩ := form.recognize_eq_some h
  obtain ⟨_, _, hblank⟩ := blanks?_eq_some hgap
  exact (((hform.leads hlead).2.1.append (hform.types htype).2.1).append
    (unbroken_of_forall_isBlank hblank)).append (unbroken_of_isWord (form.isIdentifier_name h).isWord)

/-- The first breaking character after an access keyword belongs to the form. -/
theorem Form.Breaks.find? {form : Form} {ends : List Char} (hform : form.Breaks ends)
    {cs : List Char} {p : Phrase} (h : form.recognize cs = some p) :
    ∃ d ∈ ends, cs.find? endsArguments = some d := by
  obtain ⟨afterAccess, afterLead, afterType, afterGap, afterName, haccess, hlead, htype, hgap,
    hname, htail⟩ := form.recognize_eq_some h
  obtain ⟨w, hw, hwaccess, rfl⟩ := Reader.word_eq_some haccess
  obtain ⟨rfl, hleadUnbroken, _⟩ := hform.leads hlead
  obtain ⟨rfl, htypeUnbroken, _⟩ := hform.types htype
  obtain ⟨rfl, _, hblank⟩ := blanks?_eq_some hgap
  obtain ⟨rfl, hident, _⟩ := Reader.named_eq_some hname
  rw [hwaccess, find?_unbroken_append (unbroken_of_isWord (hform.access w hw).isWord),
    find?_unbroken_append hleadUnbroken, find?_unbroken_append htypeUnbroken,
    find?_unbroken_append (unbroken_of_forall_isBlank hblank),
    find?_unbroken_append (unbroken_of_isWord (IsIdentifier.isWord hident))]
  exact hform.tail htail

/-- A declaration starts with an access keyword. -/
theorem Form.Breaks.opensWith {form : Form} {ends : List Char} (hform : form.Breaks ends) :
    OpensWith form.recognize form.access := by
  intro cs p h
  obtain ⟨afterAccess, afterLead, _, _, _, haccess, hlead, _⟩ := form.recognize_eq_some h
  obtain ⟨w, hw, hwaccess, rfl⟩ := Reader.word_eq_some haccess
  obtain ⟨rfl, _, hne, hblank⟩ := hform.leads hlead
  refine startsWithWord_iff.mpr ⟨w, hw, p.lead ++ afterLead, by rw [hwaccess], ?_⟩
  refine endsWord_iff.mpr fun c hc => isWord_of_isBlank (hblank c ?_)
  rwa [List.head?_append_of_ne_nil _ hne] at hc

/-- After its access keyword a declaration has a type and a name, which are two words at least. -/
theorem Form.Breaks.two_le_length_words {form : Form} {ends : List Char}
    (hform : form.Breaks ends) {cs : List Char} {p : Phrase} (h : form.recognize cs = some p) :
    ∃ w ∈ form.access, ∃ rest, cs = w.toList ++ rest ∧ endsWord rest = true ∧
      2 ≤ (words (rest.takeWhile (!endsArguments ·))).length := by
  obtain ⟨afterAccess, afterLead, afterType, afterGap, afterName, haccess, hlead, htype, hgap,
    hname, _⟩ := form.recognize_eq_some h
  obtain ⟨w, hw, hwaccess, rfl⟩ := Reader.word_eq_some haccess
  obtain ⟨rfl, hleadUnbroken, hleadNe, hhead⟩ := hform.leads hlead
  obtain ⟨rfl, htypeUnbroken, c, hc, hcblank⟩ := hform.types htype
  obtain ⟨rfl, hne, hblank⟩ := blanks?_eq_some hgap
  obtain ⟨rfl, hident, _⟩ := Reader.named_eq_some hname
  refine ⟨w, hw, _, by rw [hwaccess], endsWord_iff.mpr fun d hd => ?_, ?_⟩
  · rw [List.head?_append_of_ne_nil _ hleadNe] at hd
    exact isWord_of_isBlank (hhead d hd)
  · have htypeWords : words (p.lead ++ p.type) ≠ [] :=
      words_ne_nil (List.mem_append_right _ hc) hcblank
    obtain ⟨d, hd⟩ := List.exists_mem_of_ne_nil _ hident.ne_nil
    have hnameWords : words (p.name ++ afterName.takeWhile (!endsArguments ·)) ≠ [] :=
      words_ne_nil (List.mem_append_left _ hd) (isBlank_of_isWord (IsIdentifier.isWord hident d hd))
    rw [takeWhile_unbroken_append hleadUnbroken, takeWhile_unbroken_append htypeUnbroken,
      takeWhile_unbroken_append (unbroken_of_forall_isBlank hblank),
      takeWhile_unbroken_append (unbroken_of_isWord (IsIdentifier.isWord hident)),
      ← List.append_assoc, words_append_gap hne hblank, List.length_append]
    have := List.length_pos_iff.mpr htypeWords
    have := List.length_pos_iff.mpr hnameWords
    omega

/-! ## Tails -/

/-- White space and a breaking character at the head of a text. -/
def StartsWithBreak (cs : List Char) : Prop :=
  ∃ d gap rest, endsArguments d = true ∧ (∀ c ∈ gap, isBlank c = true) ∧ cs = gap ++ d :: rest

theorem StartsWithBreak.takeWhile {cs : List Char} (h : StartsWithBreak cs) :
    ∃ gap, (∀ c ∈ gap, isBlank c = true) ∧ cs.takeWhile (!endsArguments ·) = gap := by
  obtain ⟨d, gap, rest, hbreaks, hgap, rfl⟩ := h
  refine ⟨gap, hgap, ?_⟩
  rw [takeWhile_unbroken_append (unbroken_of_forall_isBlank hgap), List.takeWhile_cons, hbreaks]
  exact List.append_nil gap

/-- The first breaking character of such a text is one of all of them. -/
theorem StartsWithBreak.find? {cs : List Char} (h : StartsWithBreak cs) :
    ∃ d ∈ [';', '{', '}', '(', ')', '='], cs.find? endsArguments = some d := by
  obtain ⟨d, gap, rest, hbreaks, hgap, rfl⟩ := h
  refine ⟨d, by simpa [endsArguments, or_assoc] using hbreaks, ?_⟩
  rw [find?_unbroken_append (unbroken_of_forall_isBlank hgap), List.find?_cons, hbreaks]

theorem StartsWithBreak.not_mem_closing {cs : List Char} (h : StartsWithBreak cs) :
    '>' ∉ cs.takeWhile (!endsArguments ·) := by
  obtain ⟨gap, hgap, htake⟩ := h.takeWhile
  rw [htake]
  exact fun hmem => absurd (hgap _ hmem) (by decide)

theorem StartsWithBreak.head {cs : List Char} (h : StartsWithBreak cs) :
    ∀ c ∈ cs.head?, isWord c = false := by
  obtain ⟨d, gap, rest, hbreaks, hgap, rfl⟩ := h
  refine forall_mem_head_blanks isWord_of_isBlank hgap ?_ rest
  rw [Bool.eq_false_iff]
  intro hword
  rw [endsArguments_of_isWord hword] at hbreaks
  exact Bool.false_ne_true hbreaks

/-- Between the access keyword of a declaration and the end of its name stand the words of its
modifiers and its type, and its name. -/
theorem Form.Breaks.words_of_recognize {form : Form} {ends : List Char} (hform : form.Breaks ends)
    (htails : ∀ {cs t i}, form.tail cs = some (t, i) → StartsWithBreak cs) {cs : List Char}
    {p : Phrase} (h : form.recognize cs = some p) :
    ∃ w ∈ form.access, ∃ rest, cs = w.toList ++ rest ∧ p.access = w.toList ∧
      (∃ c ∈ rest.head?, isBlank c = true) ∧
      words (rest.takeWhile (!endsArguments ·)) = words (p.lead ++ p.type) ++ [p.name] := by
  obtain ⟨afterAccess, afterLead, afterType, afterGap, afterName, haccess, hlead, htype, hgap,
    hname, htail⟩ := Form.recognize_eq_some h
  obtain ⟨w, hw, hwaccess, rfl⟩ := Reader.word_eq_some haccess
  obtain ⟨rfl, hleadUnbroken, hleadNe, hhead⟩ := hform.leads hlead
  obtain ⟨rfl, htypeUnbroken, _⟩ := hform.types htype
  obtain ⟨rfl, hgapNe, hgapBlank⟩ := blanks?_eq_some hgap
  obtain ⟨rfl, hident, _⟩ := Reader.named_eq_some hname
  obtain ⟨d, after, further, hbreaks, hafter, rfl⟩ := htails htail
  have hnameWord : words (p.name ++ after) = [p.name] := words_append_blanks hident.ne_nil
    (fun c hc => isBlank_of_isWord (IsIdentifier.isWord hident c hc)) hafter
  refine ⟨w, hw, _, by rw [hwaccess], hwaccess, ?_, ?_⟩
  · obtain ⟨c, lead, hparts⟩ := List.exists_cons_of_ne_nil hleadNe
    exact ⟨c, by rw [hparts]; rfl, hhead c (by rw [hparts]; rfl)⟩
  · rw [takeWhile_unbroken_append hleadUnbroken, takeWhile_unbroken_append htypeUnbroken,
      takeWhile_unbroken_append (unbroken_of_forall_isBlank hgapBlank),
      takeWhile_unbroken_append (unbroken_of_isWord (IsIdentifier.isWord hident)),
      takeWhile_unbroken_append (unbroken_of_forall_isBlank hafter), List.takeWhile_cons, hbreaks,
      ← List.append_assoc, words_append_gap hgapNe hgapBlank]
    simp only [Bool.not_true, Bool.false_eq_true, if_false, List.append_nil, hnameWord]

theorem exists_gap_char {d : Char} {rs : List Reader} {cs t rest : List Char}
    (h : Reader.sequence (.gap :: .char d :: rs) cs = some (t, rest)) :
    ∃ gap further, (∀ c ∈ gap, isBlank c = true) ∧ cs = gap ++ d :: further := by
  obtain ⟨gap, middle, _, hgap, hfurther, _⟩ := Reader.sequence_cons_eq_some h
  obtain ⟨_, further, _, hchar, _, _⟩ := Reader.sequence_cons_eq_some hfurther
  obtain ⟨rfl, hblank⟩ := Reader.gap_eq_some hgap
  obtain ⟨_, rfl⟩ := Reader.char_eq_some hchar
  exact ⟨gap, further, hblank, rfl⟩

theorem find?_gap_char {d : Char} {rs : List Reader} {cs t rest : List Char}
    (hd : endsArguments d = true)
    (h : Reader.sequence (.gap :: .char d :: rs) cs = some (t, rest)) :
    cs.find? endsArguments = some d := by
  obtain ⟨gap, further, hblank, rfl⟩ := exists_gap_char h
  rw [find?_unbroken_append (unbroken_of_forall_isBlank hblank), List.find?_cons, hd]

theorem fieldTail_semicolon {gap : List Char} (hgap : ∀ c ∈ gap, isBlank c = true)
    (rest : List Char) : fieldTail (gap ++ ';' :: rest) = some (gap ++ [';'], none) := by
  have hblanks := blanks_append hgap (forall_mem_head_cons (c := ';') (by decide) rest)
  simp only [fieldTail, hblanks]

/-- An initializer is read up to its first semicolon. -/
theorem initializer?_append {initializer : List Char}
    (hinitializer : ∀ c ∈ initializer, decide (c ≠ ';') = true) (rest : List Char) :
    initializer? ('=' :: (initializer ++ ';' :: rest)) = some (initializer, ';' :: rest) := by
  have hend : ∀ c ∈ (';' :: rest).head?, decide (c ≠ ';') = false := by simp
  simp only [initializer?]
  rw [takeWhile_append_of_head hinitializer hend, dropWhile_append_of_head hinitializer hend]
  rfl

theorem fieldTail_initializer {gap initializer : List Char} (hgap : ∀ c ∈ gap, isBlank c = true)
    (hinitializer : ∀ c ∈ initializer, decide (c ≠ ';') = true) (rest : List Char) :
    fieldTail (gap ++ '=' :: (initializer ++ ';' :: rest)) =
      some (gap ++ '=' :: (initializer ++ [';']), some initializer) := by
  have hblanks := blanks_append hgap
    (forall_mem_head_cons (c := '=') (by decide) (initializer ++ ';' :: rest))
  simp only [fieldTail, hblanks, initializer?_append hinitializer rest, Option.map_some,
    List.append_assoc, List.cons_append]
  rfl

theorem methodTail_parenthesis {gap : List Char} (hgap : ∀ c ∈ gap, isBlank c = true)
    (rest : List Char) : methodTail (gap ++ '(' :: rest) = some (gap ++ ['('], none) := by
  have hbracket : ∀ c ∈ ((gap ++ '(' :: rest).dropWhile isBlank).head?, c ≠ '<' := by
    rw [head_dropWhile_blanks hgap (by decide)]
    exact forall_mem_head_cons (by decide) rest
  have hread := Reader.sequence_cons
    (Reader.gap_append hgap (forall_mem_head_cons (c := '(') (by decide) rest))
    (Reader.sequence_singleton (Reader.char_cons '(' rest))
  simp only [methodTail, optionalArguments_of_no_bracket hbracket, List.findSome?_cons, hread,
    Option.map_some, List.nil_append]

/-- The tail of a field is white space and a semicolon, perhaps with an initializer in between. -/
theorem fieldTail_eq_some {cs t : List Char} {i : Option (List Char)}
    (h : fieldTail cs = some (t, i)) :
    ∃ gap rest, (∀ c ∈ gap, isBlank c = true) ∧ cs = t ++ rest ∧
      (t = gap ++ [';'] ∧ i = none ∨
        ∃ initializer, t = gap ++ '=' :: (initializer ++ [';']) ∧ i = some initializer) := by
  rw [fieldTail] at h
  cases hblanks : blanks cs with
  | mk gap afterGap =>
      obtain ⟨rfl, hblank⟩ := Reader.gap_eq_some (congrArg some hblanks)
      rw [hblanks] at h
      dsimp only at h
      split at h
      next rest =>
        obtain ⟨rfl, rfl⟩ := Prod.mk.inj (Option.some.inj h)
        exact ⟨gap, rest, hblank, by simp, .inl ⟨rfl, rfl⟩⟩
      next =>
        obtain ⟨⟨initializer, _⟩, hparts, heq⟩ := Option.map_eq_some_iff.mp h
        obtain ⟨rfl, rfl⟩ := Prod.mk.inj heq
        unfold initializer? at hparts
        split at hparts
        next further _ =>
          split at hparts
          next rest hrest =>
            obtain ⟨rfl, _⟩ := Prod.mk.inj (Option.some.inj hparts)
            have hfurther := List.takeWhile_append_dropWhile (p := fun c => decide (c ≠ ';'))
              (l := further)
            rw [hrest] at hfurther
            refine ⟨gap, rest, hblank, ?_, .inr ⟨_, by simp, rfl⟩⟩
            simp only [List.append_assoc, List.cons_append, List.nil_append, hfurther]
          next => exact absurd hparts (by simp)
        next => exact absurd hparts (by simp)

/-- The tail of a field is white space and then a semicolon or an equals sign. -/
theorem exists_fieldTail {cs t : List Char} {i : Option (List Char)}
    (h : fieldTail cs = some (t, i)) : ∃ d ∈ [';', '='], ∃ gap rest,
      (∀ c ∈ gap, isBlank c = true) ∧ cs = gap ++ d :: rest := by
  obtain ⟨gap, rest, hblank, rfl, ⟨rfl, _⟩ | ⟨initializer, rfl, _⟩⟩ := fieldTail_eq_some h
  · exact ⟨';', by simp, gap, rest, hblank, by simp⟩
  · exact ⟨'=', by simp, gap, initializer ++ ';' :: rest, hblank, by simp⟩

theorem startsWithBreak_fieldTail {cs t : List Char} {i : Option (List Char)}
    (h : fieldTail cs = some (t, i)) : StartsWithBreak cs := by
  obtain ⟨d, hd, gap, rest, hgap, hparts⟩ := exists_fieldTail h
  refine ⟨d, gap, rest, ?_, hgap, hparts⟩
  rcases List.mem_pair.mp hd with rfl | rfl <;> rfl

theorem find?_fieldTail {cs t : List Char} {i : Option (List Char)}
    (h : fieldTail cs = some (t, i)) : ∃ d ∈ [';', '='], cs.find? endsArguments = some d := by
  obtain ⟨d, hd, gap, rest, hblank, rfl⟩ := exists_fieldTail h
  refine ⟨d, hd, ?_⟩
  rw [find?_unbroken_append (unbroken_of_forall_isBlank hblank), List.find?_cons]
  rcases List.mem_pair.mp hd with rfl | rfl <;> rfl

/-- The tail of a method is type parameters or nothing, white space and a parenthesis. -/
theorem methodTail_eq_some {cs t : List Char} {i : Option (List Char)}
    (h : methodTail cs = some (t, i)) : ∃ parameters gap rest,
      cs = parameters ++ (gap ++ '(' :: rest) ∧ t = parameters ++ (gap ++ ['(']) ∧
        (parameters = [] ∨ IsArguments parameters) ∧ Unbroken parameters ∧
        ∀ c ∈ gap, isBlank c = true := by
  obtain ⟨⟨parameters, afterParameters⟩, hmem, hread⟩ := List.exists_of_findSome?_eq_some h
  obtain ⟨⟨opening, afterOpening⟩, hopening, heq⟩ := Option.map_eq_some_iff.mp hread
  obtain ⟨rfl, rfl⟩ := Prod.mk.inj heq
  obtain ⟨gap, middle, b, hgap, hfurther, rfl⟩ := Reader.sequence_cons_eq_some hopening
  obtain ⟨_, rest, _, hchar, hend, rfl⟩ := Reader.sequence_cons_eq_some hfurther
  obtain ⟨rfl, hblank⟩ := Reader.gap_eq_some hgap
  obtain ⟨rfl, rfl⟩ := Reader.char_eq_some hchar
  obtain ⟨rfl, rfl⟩ := Prod.mk.inj (Option.some.inj hend)
  obtain ⟨rfl, hunbroken⟩ := mem_optionalArguments hmem
  exact ⟨parameters, gap, rest, rfl, rfl, isArguments_of_mem_optionalArguments hmem, hunbroken,
    hblank⟩

theorem find?_methodTail {cs t : List Char} {i : Option (List Char)}
    (h : methodTail cs = some (t, i)) : ∃ d ∈ ['('], cs.find? endsArguments = some d := by
  obtain ⟨⟨parameters, afterParameters⟩, hmem, hread⟩ := List.exists_of_findSome?_eq_some h
  obtain ⟨⟨opening, rest⟩, hopening, _⟩ := Option.map_eq_some_iff.mp hread
  obtain ⟨rfl, hunbroken⟩ := mem_optionalArguments hmem
  refine ⟨'(', by simp, ?_⟩
  rw [find?_unbroken_append hunbroken, find?_gap_char (by decide) hopening]

theorem find?_propertyTail {access : List String} {cs t : List Char} {i : Option (List Char)}
    (h : propertyTail access cs = some (t, i)) : ∃ d ∈ ['{'], cs.find? endsArguments = some d := by
  obtain ⟨⟨accessor, rest⟩, hread, _⟩ := Option.map_eq_some_iff.mp h
  exact ⟨'{', by simp, find?_gap_char (by decide) hread⟩

theorem find?_autoPropertyTail {access : List String} {cs t : List Char} {i : Option (List Char)}
    (h : autoPropertyTail access cs = some (t, i)) :
    ∃ d ∈ ['{'], cs.find? endsArguments = some d := by
  simp only [autoPropertyTail, Option.bind_eq_bind, Option.bind_eq_some_iff] at h
  obtain ⟨⟨accessors, rest⟩, hread, _⟩ := h
  exact ⟨'{', by simp, find?_gap_char (by decide) hread⟩

/-! ## The five forms -/

/-- A part that a form splits off in front of a type. -/
theorem leads_breaks {modifiers : List String} (hwords : ∀ w ∈ modifiers, IsIdentifier w.toList)
    {cs a rest : List Char} (h : (a, rest) ∈ leads modifiers cs) :
    cs = a ++ rest ∧ Unbroken a ∧ a ≠ [] ∧ ∀ c ∈ a.head?, isBlank c = true := by
  obtain ⟨hparts, ws, hlead⟩ := mem_leads h
  exact ⟨hparts, hlead.unbroken hwords, hlead.ne_nil, hlead.head⟩

theorem methodLeads_breaks {cs a rest : List Char}
    (h : (a, rest) ∈ methodLeads Language.modifiers cs) :
    cs = a ++ rest ∧ Unbroken a ∧ a ≠ [] ∧ ∀ c ∈ a.head?, isBlank c = true := by
  obtain ⟨⟨lead, afterLead⟩, hlead, hmem⟩ := List.mem_flatMap.mp h
  obtain ⟨rfl, hunbroken, hne, hhead⟩ := leads_breaks isIdentifier_modifiers hlead
  rcases List.mem_append.mp hmem with hmem | hmem
  · obtain ⟨⟨parameters, afterParameters⟩, hparameters, heq⟩ := List.mem_map.mp hmem
    obtain ⟨rfl, rfl⟩ := Prod.mk.inj heq
    obtain ⟨rfl, hunbroken'⟩ := mem_arguments hparameters
    obtain ⟨hgap, hblank⟩ := takeWhile_append_dropWhile_isBlank afterParameters
    refine ⟨?_, ?_, by simp [hne], ?_⟩
    · rw [List.append_assoc, List.append_assoc]
      exact congrArg (fun after => lead ++ (parameters ++ after)) hgap
    · exact (hunbroken.append hunbroken').append (unbroken_of_forall_isBlank hblank)
    · rw [List.append_assoc, List.head?_append_of_ne_nil _ hne]
      exact hhead
  · obtain ⟨rfl, rfl⟩ := Prod.mk.inj (List.mem_singleton.mp hmem)
    exact ⟨rfl, hunbroken, hne, hhead⟩

theorem types_breaks {cs a rest : List Char} (h : (a, rest) ∈ types cs) :
    cs = a ++ rest ∧ Unbroken a ∧ ∃ c ∈ a, isBlank c = false := by
  obtain ⟨hparts, hunbroken, name, further, hname, rfl⟩ := mem_types h
  obtain ⟨c, name, rfl⟩ := List.exists_cons_of_ne_nil hname.ne_nil
  refine ⟨hparts, hunbroken, c, by simp, isBlank_of_isWord ?_⟩
  exact isWord_of_startsName hname.1

theorem mem_bareTypes {cs a rest : List Char} (h : (a, rest) ∈ bareTypes cs) :
    cs = a ++ rest ∧ IsIdentifier a := by
  obtain ⟨hparts, hname, _⟩ := Reader.named_eq_some (Option.mem_toList.mp h)
  exact ⟨hparts, hname⟩

theorem bareTypes_breaks {cs a rest : List Char} (h : (a, rest) ∈ bareTypes cs) :
    cs = a ++ rest ∧ Unbroken a ∧ ∃ c ∈ a, isBlank c = false := by
  obtain ⟨hparts, hname⟩ := mem_bareTypes h
  obtain ⟨c, hc⟩ := List.exists_mem_of_ne_nil _ hname.ne_nil
  have hword := IsIdentifier.isWord hname
  exact ⟨hparts, unbroken_of_isWord hword, c, hc, isBlank_of_isWord (hword c hc)⟩

variable (language : Language)

theorem fieldForm_breaks : (fieldForm language).Breaks [';', '='] :=
  ⟨isIdentifier_accessKeywords language, leads_breaks isIdentifier_modifiers, types_breaks,
    find?_fieldTail⟩

theorem methodForm_breaks : (methodForm language).Breaks ['('] :=
  ⟨isIdentifier_accessKeywords language, methodLeads_breaks, types_breaks, find?_methodTail⟩

theorem propertyForm_breaks : (propertyForm language).Breaks ['{'] :=
  ⟨isIdentifier_accessKeywords language, leads_breaks isIdentifier_modifiers, types_breaks,
    find?_propertyTail⟩

theorem heldFieldForm_breaks : (heldFieldForm language).Breaks [';', '='] :=
  ⟨isIdentifier_private, leads_breaks (isIdentifier_holdingModifiers language), bareTypes_breaks,
    find?_fieldTail⟩

theorem autoPropertyForm_breaks : (autoPropertyForm language).Breaks ['{'] :=
  ⟨isIdentifier_accessKeywords language, leads_breaks isIdentifier_modifiers, bareTypes_breaks,
    find?_autoPropertyTail⟩

/-- What is read as a method ends with the parenthesis that opens its parameter list. -/
theorem exists_rest_of_method {language : Language} {cs : List Char} {p : Phrase}
    (h : (methodForm language).recognize cs = some p) : ∃ text rest,
      p.text = text ++ ['('] ∧ cs = p.text ++ rest := by
  obtain ⟨afterName, rfl, htail⟩ := (methodForm_breaks language).exists_afterName h
  obtain ⟨parameters, gap, rest, rfl, htail, _⟩ := methodTail_eq_some htail
  refine ⟨p.access ++ (p.declarator ++ (parameters ++ gap)), rest, ?_, ?_⟩
  · simp [Phrase.text, htail]
  · simp [Phrase.text, htail]

/-! ## Plainly named types -/

/-- A form that asks for some of the words `modifiers` and a plainly named type. -/
structure Form.IsBare (form : Form) (modifiers : List String) : Prop where
  access : ∀ w ∈ form.access, IsIdentifier w.toList
  words : ∀ w ∈ modifiers, IsIdentifier w.toList
  leads : form.leads = Source.leads modifiers
  types : form.types = bareTypes
  tail : ∀ {cs t i}, form.tail cs = some (t, i) → StartsWithBreak cs

theorem heldFieldForm_isBare : (heldFieldForm language).IsBare language.holdingModifiers where
  access := isIdentifier_private
  words := isIdentifier_holdingModifiers language
  leads := rfl
  types := rfl
  tail := startsWithBreak_fieldTail

theorem autoPropertyForm_isBare : (autoPropertyForm language).IsBare Language.modifiers where
  access := isIdentifier_accessKeywords language
  words := isIdentifier_modifiers
  leads := rfl
  types := rfl
  tail := fun h => by
    simp only [autoPropertyForm, autoPropertyTail, Option.bind_eq_bind,
      Option.bind_eq_some_iff] at h
    obtain ⟨⟨accessors, rest⟩, hread, _⟩ := h
    obtain ⟨gap, further, hgap, hparts⟩ := exists_gap_char hread
    exact ⟨'{', gap, further, rfl, hgap, hparts⟩

theorem Form.IsBare.breaks {form : Form} {modifiers : List String} (hform : form.IsBare modifiers) :
    form.Breaks [';', '{', '}', '(', ')', '='] where
  access := hform.access
  leads h := leads_breaks hform.words (hform.leads ▸ h)
  types h := bareTypes_breaks (hform.types ▸ h)
  tail h := (hform.tail h).find?

/-- What is recognized by a form that asks for a plainly named type has no words but modifiers, a
type and a name. -/
theorem Form.IsBare.words_of_recognize {form : Form} {modifiers : List String}
    (hform : form.IsBare modifiers) {cs : List Char} {p : Phrase}
    (h : form.recognize cs = some p) :
    ∃ w ∈ form.access, ∃ (rest : List Char) (ws : List String), cs = w.toList ++ rest ∧
      (∀ c ∈ rest.head?, isWord c = false) ∧ (∀ v ∈ ws, v ∈ modifiers) ∧ IsIdentifier p.type ∧
      Text.words (rest.takeWhile (!endsArguments ·)) =
        ws.map String.toList ++ [p.type, p.name] := by
  obtain ⟨w, hw, rest, rfl, _, ⟨c, hc, hblank⟩, hwords⟩ :=
    hform.breaks.words_of_recognize hform.tail h
  obtain ⟨_, _, _, _, _, _, hlead, htype, _⟩ := Form.recognize_eq_some h
  rw [hform.leads] at hlead
  rw [hform.types] at htype
  obtain ⟨_, ws, hisLead⟩ := mem_leads hlead
  obtain ⟨_, hident⟩ := mem_bareTypes htype
  have htypeWord : Text.words p.type = [p.type] := words_of_forall_not_blank hident.ne_nil
    fun c hc => isBlank_of_isWord (IsIdentifier.isWord hident c hc)
  refine ⟨w, hw, rest, ws, rfl, fun d hd => ?_, hisLead.mem, hident, ?_⟩
  · obtain rfl := Option.some.inj (hc.symm.trans hd)
    exact isWord_of_isBlank hblank
  · rw [hwords, hisLead.words_append hform.words, htypeWord, List.append_assoc]
    rfl

end Member

end ClassDiagram
