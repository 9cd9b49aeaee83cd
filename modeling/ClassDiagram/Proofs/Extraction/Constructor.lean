import ClassDiagram.Extraction
import ClassDiagram.Proofs.Member.Place

/-!
# Constructors among the methods

A constructor has no return type: between its access keyword and its name there are only
modifiers. Without modifiers it is not read as a method. With modifiers it is: the reading gives
back the last of them, and takes it for the type.
-/

namespace ClassDiagram

open Text Source

namespace Member

/-- The words between the access keyword of a declaration and its name. -/
def Phrase.specifiers (p : Phrase) : List (List Char) := words (p.lead ++ p.type)

/-- A declaration without a return type. -/
def Phrase.IsConstructor (p : Phrase) : Prop :=
  ∀ w ∈ p.specifiers, ∃ modifier ∈ Language.modifiers, w = modifier.toList

variable {language : Language}

theorem specifiers_ne_nil {cs : List Char} {p : Phrase}
    (h : (methodForm language).recognize cs = some p) : p.specifiers ≠ [] := by
  obtain ⟨_, _, _, _, _, _, _, htype, _⟩ := Form.recognize_eq_some h
  obtain ⟨_, _, c, hc, hblank⟩ := types_breaks htype
  exact words_ne_nil (List.mem_append_right _ hc) hblank

theorem Phrase.IsConstructor.isWord {p : Phrase} (h : p.IsConstructor) :
    ∀ c ∈ p.lead ++ p.type, isBlank c = false → isWord c = true := by
  intro c hc hblank
  obtain ⟨w, hw, hcw⟩ := exists_mem_words hc hblank
  obtain ⟨modifier, hmodifier, rfl⟩ := h w hw
  exact (isIdentifier_modifiers modifier hmodifier).isWord c hcw

/-- Without an angle bracket, there are only modifiers in front of the type of a method. -/
theorem mem_leads_of_mem_methodLeads {cs a rest : List Char} (hbracket : '<' ∉ a)
    (h : (a, rest) ∈ methodLeads Language.modifiers cs) :
    (a, rest) ∈ leads Language.modifiers cs := by
  obtain ⟨⟨lead, afterLead⟩, hlead, hmem⟩ := List.mem_flatMap.mp h
  rcases List.mem_append.mp hmem with hmem | hmem
  · obtain ⟨⟨parameters, afterParameters⟩, hparameters, heq⟩ := List.mem_map.mp hmem
    obtain ⟨rfl, rfl⟩ := Prod.mk.inj heq
    unfold arguments at hparameters
    split at hparameters
    next further =>
      obtain ⟨_, _, heq⟩ := List.mem_map.mp hparameters
      obtain ⟨rfl, rfl⟩ := Prod.mk.inj heq
      exact absurd (by simp) hbracket
    next => exact absurd hparameters List.not_mem_nil
  · obtain ⟨rfl, rfl⟩ := Prod.mk.inj (List.mem_singleton.mp hmem)
    exact hlead

theorem mem_methodLeads_of_mem_leads {cs a rest : List Char}
    (h : (a, rest) ∈ leads Language.modifiers cs) :
    (a, rest) ∈ methodLeads Language.modifiers cs :=
  List.mem_flatMap.mpr ⟨(a, rest), h, List.mem_append_right _ (List.mem_singleton_self _)⟩

/-- If a constructor is read as a method, the last of its modifiers is taken for its type. -/
theorem Phrase.IsConstructor.type_eq {cs : List Char} {p : Phrase} (hp : p.IsConstructor)
    (h : (methodForm language).recognize cs = some p) :
    ∃ ws : List String, IsLead Language.modifiers ws p.lead ∧
      p.specifiers = ws.map String.toList ++ [p.type] := by
  obtain ⟨_, _, _, _, _, _, hlead, htype, _⟩ := Form.recognize_eq_some h
  have hbracket : '<' ∉ p.lead := by
    intro hmem
    have hword := hp.isWord '<' (List.mem_append_left _ hmem) (by decide)
    exact absurd hword (by decide)
  obtain ⟨_, ws, hws⟩ := mem_leads (mem_leads_of_mem_methodLeads hbracket hlead)
  have hident : IsIdentifier p.type := (isType_of_mem_types htype).isIdentifier
    fun c hc => hp.isWord c (List.mem_append_right _ hc)
  refine ⟨ws, hws, ?_⟩
  rw [specifiers, hws.words_append isIdentifier_modifiers,
    words_of_forall_not_blank hident.ne_nil fun c hc => isBlank_of_isWord (hident.isWord c hc)]

/-! ## Which constructors are read as methods -/

theorem not_mem_lead {modifiers ws : List String} (hwords : ∀ w ∈ modifiers, IsIdentifier w.toList)
    {lead : List Char} (hlead : IsLead modifiers ws lead) {c : Char} (hblank : isBlank c = false)
    (hc : isWord c = false) : c ∉ lead := by
  intro hmem
  obtain ⟨w, hw, hcw⟩ := exists_mem_words hmem hblank
  have hleadWords := hlead.words_append hwords []
  rw [List.append_nil, words_nil, List.append_nil] at hleadWords
  rw [hleadWords] at hw
  obtain ⟨modifier, hmodifier, rfl⟩ := List.mem_map.mp hw
  have hword := (hwords modifier (hlead.mem modifier hmodifier)).isWord c hcw
  rw [hc] at hword
  exact absurd hword Bool.false_ne_true

/-- A lead can be left at its last modifier, which then is the next word to be read. -/
theorem exists_leads_of_modifier {modifiers : List String} (hfree : PrefixFree modifiers)
    (hwords : ∀ w ∈ modifiers, IsIdentifier w.toList) {ws : List String} {lead : List Char}
    (h : IsLead modifiers ws lead) (hne : ws ≠ []) :
    ∃ front last back, last ∈ modifiers ∧ back ≠ [] ∧ (∀ c ∈ back, isBlank c = true) ∧
      ∀ rest, (∀ c ∈ rest.head?, isBlank c = false) →
        (front, last.toList ++ (back ++ rest)) ∈ leads modifiers (lead ++ rest) := by
  induction h with
  | gap => exact absurd rfl hne
  | @modifier gap lead w ws hgapNe hgap hw hlead ih =>
      have hstart : ∀ rest, ∀ c ∈ (w.toList ++ rest).head?, isBlank c = false := fun rest c hc =>
        isBlank_of_isWord ((hwords w hw).head rest c hc)
      have hsplit : ∀ rest, leads modifiers (gap ++ (w.toList ++ lead) ++ rest) =
          (leads modifiers (lead ++ rest)).map (fun later => (gap ++ w.toList ++ later.1, later.2))
            ++ [(gap, w.toList ++ (lead ++ rest))] := by
        intro rest
        rw [List.append_assoc, List.append_assoc]
        exact leads_of_word (blanks?_append hgapNe hgap (hstart _)) (Reader.word_append hfree hw _)
      cases hlead with
      | gap hbackNe hback =>
          refine ⟨gap, w, lead, hw, hbackNe, hback, fun rest _ => ?_⟩
          rw [hsplit]
          exact List.mem_append_right _ (List.mem_singleton_self _)
      | modifier =>
          obtain ⟨front, last, back, hlast, hbackNe, hback, hmem⟩ := ih (List.cons_ne_nil _ _)
          refine ⟨gap ++ w.toList ++ front, last, back, hlast, hbackNe, hback, ?_⟩
          intro rest hrest
          rw [hsplit]
          exact List.mem_append_left _ (List.mem_map.mpr ⟨_, hmem rest hrest, rfl⟩)

/-- After its access keyword, what is read as a method has the words in front of its name, its
name, and no further words if it has no type parameters. -/
theorem words_method {cs : List Char} {p : Phrase}
    (h : (methodForm language).recognize cs = some p) :
    ∃ w ∈ language.accessKeywords, ∃ rest, cs = w.toList ++ rest ∧
      ('<' ∉ rest.takeWhile (!endsArguments ·) →
        words (rest.takeWhile (!endsArguments ·)) = p.specifiers ++ [p.name]) := by
  obtain ⟨afterAccess, afterLead, afterType, afterGap, afterName, haccess, hlead, htype, hgap,
    hname, htail⟩ := Form.recognize_eq_some h
  obtain ⟨w, hw, hwaccess, rfl⟩ := Reader.word_eq_some haccess
  obtain ⟨rfl, hleadUnbroken, _, _⟩ := methodLeads_breaks hlead
  obtain ⟨rfl, htypeUnbroken, _⟩ := mem_types htype
  obtain ⟨rfl, hne, hblank⟩ := blanks?_eq_some hgap
  obtain ⟨rfl, hident, _⟩ := Reader.named_eq_some hname
  obtain ⟨parameters, before, rest, rfl, _, hparameters, hparametersUnbroken, hbeforeBlank⟩ :=
    methodTail_eq_some htail
  refine ⟨w, hw, _, by rw [hwaccess], fun hbracket => ?_⟩
  rw [takeWhile_unbroken_append hleadUnbroken, takeWhile_unbroken_append htypeUnbroken,
    takeWhile_unbroken_append (unbroken_of_forall_isBlank hblank),
    takeWhile_unbroken_append (unbroken_of_isWord (IsIdentifier.isWord hident)),
    takeWhile_unbroken_append hparametersUnbroken,
    takeWhile_unbroken_append (unbroken_of_forall_isBlank hbeforeBlank)] at hbracket ⊢
  have hparameters : parameters = [] := by
    refine hparameters.resolve_right ?_
    rintro ⟨gap, inner, _, _, rfl⟩
    exact hbracket (by simp)
  have hnameWord : words (p.name ++ before) = [p.name] := words_append_blanks hident.ne_nil
    (fun c hc => isBlank_of_isWord (IsIdentifier.isWord hident c hc)) hbeforeBlank
  rw [hparameters, List.nil_append, ← List.append_assoc, words_append_gap hne hblank,
    Phrase.specifiers]
  simp [endsArguments, hnameWord]

/-- How a constructor starts: with an access keyword, the modifiers `ws`, its name, and a
parenthesis. -/
inductive StartsConstructor (language : Language) (ws : List String) (name : List Char) :
    List Char → Prop
  | intro {w : String} (hw : w ∈ language.accessKeywords) {lead gap : List Char}
      (hlead : IsLead Language.modifiers ws lead) (hname : IsIdentifier name)
      (hgap : ∀ c ∈ gap, isBlank c = true) (rest : List Char) :
      StartsConstructor language ws name (w.toList ++ (lead ++ (name ++ (gap ++ '(' :: rest))))

/-- A constructor is read as a method exactly if it has modifiers. -/
theorem StartsConstructor.recognize_iff {ws : List String} {name cs : List Char}
    (h : StartsConstructor language ws name cs) :
    (∃ p, (methodForm language).recognize cs = some p ∧
      p.specifiers = ws.map String.toList ∧ p.name = name) ↔ ws ≠ [] := by
  obtain @⟨w, hw, lead, gap, hlead, hname, hgap, rest⟩ := h
  constructor
  · rintro ⟨p, hread, hspecifiers, _⟩ rfl
    exact specifiers_ne_nil hread hspecifiers
  · intro hne
    -- With the last modifier as the type, the declaration can be read.
    obtain ⟨front, last, back, hlast, hbackNe, hback, hmem⟩ :=
      exists_leads_of_modifier prefixFree_modifiers isIdentifier_modifiers hlead hne
    have hopen : (gap ++ '(' :: rest).takeWhile (!endsArguments ·) = gap := by
      rw [takeWhile_unbroken_append (unbroken_of_forall_isBlank hgap)]
      simp [endsArguments]
    have hclosing : '>' ∉ (gap ++ '(' :: rest).takeWhile (!endsArguments ·) := by
      rw [hopen]
      exact fun h => absurd (hgap _ h) (by decide)
    obtain ⟨_, htypes⟩ := types_append (isIdentifier_modifiers last hlast).isType
      (endsType_gap_name hbackNe hback hname hclosing)
    have hnameHead : ∀ c ∈ (name ++ (gap ++ '(' :: rest)).head?, isBlank c = false := fun c hc =>
      isBlank_of_isWord (hname.head _ c hc)
    have hgapHead : ∀ c ∈ (gap ++ '(' :: rest).head?, isWord c = false :=
      forall_mem_head_blanks isWord_of_isBlank hgap (by decide +kernel) _
    have hreads : ((methodForm language).recognize
        (w.toList ++ (lead ++ (name ++ (gap ++ '(' :: rest))))).isSome = true :=
      Form.isSome_recognize (Reader.word_append (prefixFree_accessKeywords language) hw _)
        (mem_methodLeads_of_mem_leads (hmem _ hnameHead)) (htypes ▸ List.mem_cons_self)
        (blanks?_append hbackNe hback hnameHead) (Reader.named_append hname hgapHead)
        (methodTail_parenthesis hgap rest)
    obtain ⟨p, hread⟩ := Option.isSome_iff_exists.mp hreads
    -- The words up to the parenthesis are the same, however they are read.
    obtain ⟨v, hv, afterAccess, htext, hwords⟩ := words_method hread
    have hfree := prefixFree_accessKeywords language
    obtain rfl : v = w := hfree.eq_of_prefix hv hw
      (by rw [htext]; exact List.prefix_append _ _) (List.prefix_append _ _)
    obtain rfl := List.append_cancel_left htext
    have hnameWord : words (name ++ gap) = [name] := words_append_blanks hname.ne_nil
      (fun c hc => isBlank_of_isWord (hname.isWord c hc)) hgap
    rw [takeWhile_unbroken_append (hlead.unbroken isIdentifier_modifiers),
      takeWhile_unbroken_append (unbroken_of_isWord hname.isWord), hopen,
      hlead.words_append isIdentifier_modifiers, hnameWord] at hwords
    have hsame := hwords ?_
    · obtain ⟨hspecifiers, hnames⟩ := List.append_inj' hsame rfl
      exact ⟨p, hread, hspecifiers.symm, (List.singleton_inj.mp hnames).symm⟩
    · simp only [List.mem_append, not_or]
      refine ⟨not_mem_lead isIdentifier_modifiers hlead (by decide) (by decide),
        fun h => ?_, fun h => ?_⟩
      · exact absurd (hname.isWord _ h) (by decide)
      · exact absurd (hgap _ h) (by decide)

end Member

/-! ## The methods of a record -/

/-- What a mode shows of a method. -/
def ExtractionMode.shown (mode : ExtractionMode) (m : Method) : String :=
  match mode with
  | nameOnly => m.name ++ "()"
  | fullSignature => (Signature.ofMethod m).marked

theorem Signature.firstOfEachName_subset (seen : List String) (signatures : List Signature) :
    firstOfEachName seen signatures ⊆ signatures := by
  induction signatures generalizing seen with
  | nil => exact List.Subset.refl _
  | cons signature signatures ih =>
      rw [firstOfEachName]
      split
      next => exact List.subset_cons_of_subset _ (ih seen)
      next => exact List.cons_subset_cons _ (ih _)

/-- Every method of a record is declared in the body of the class. -/
theorem exists_method_of_mem_methods {mode : ExtractionMode} {language : Language}
    {source : List Char} {entry : String} (h : entry ∈ (extract mode language source).methods) :
    ∃ d, Declaration.find? language (Masked.ofSource source).skeleton = some d ∧
      ∃ m ∈ Method.declared language (.ofSource source) d.body, entry = mode.shown m := by
  rw [extract, Extraction.ofMasked] at h
  split at h
  next => exact absurd h List.not_mem_nil
  next d hfind =>
    refine ⟨d, hfind, ?_⟩
    cases mode with
    | nameOnly =>
        obtain ⟨m, hm, rfl⟩ := List.mem_map.mp h
        exact ⟨m, hm, rfl⟩
    | fullSignature =>
        obtain ⟨signature, hsignature, rfl⟩ := List.mem_map.mp h
        obtain ⟨m, hm, rfl⟩ := List.mem_map.mp (Signature.firstOfEachName_subset _ _ hsignature)
        exact ⟨m, hm, rfl⟩

/-- Every method of a record comes from a declaration in the body that has words between its access
keyword and its name. If they are all modifiers, so that the declaration is that of a constructor,
the last of them was taken for a return type. So a constructor is read as a method exactly if it has
modifiers. -/
theorem methods_extract_specified (mode : ExtractionMode) (language : Language)
    (source : List Char) :
    (∀ entry ∈ (extract mode language source).methods, ∃ d front p rest m,
      Declaration.find? language (Masked.ofSource source).skeleton = some d ∧
      slice (Masked.ofSource source).skeleton d.body = front ++ (p.text ++ rest) ∧
      (Member.methodForm language).recognize (p.text ++ rest) = some p ∧
      Method.ofPhrase? (.ofSource source) d.body.stop (d.body.start + byteLength front) p = some m ∧
      entry = mode.shown m ∧ p.specifiers ≠ [] ∧
      (p.IsConstructor → ∃ ws : List String, IsLead Language.modifiers ws p.lead ∧
        p.specifiers = ws.map String.toList ++ [p.type])) ∧
    ∀ ws name cs, Member.StartsConstructor language ws name cs →
      ((∃ p, (Member.methodForm language).recognize cs = some p ∧
        p.specifiers = ws.map String.toList ∧ p.name = name) ↔ ws ≠ []) := by
  refine ⟨?_, fun ws name cs hstarts => hstarts.recognize_iff⟩
  intro entry hentry
  obtain ⟨d, hfind, m, hm, rfl⟩ := exists_method_of_mem_methods hentry
  obtain ⟨⟨o, p⟩, hmem, hmethod⟩ := List.mem_filterMap.mp hm
  obtain ⟨front, back, hslice, rfl, hread⟩ := Member.Form.mem_within hmem
  obtain ⟨_, rest, _, rfl⟩ := Member.exists_rest_of_method hread
  exact ⟨d, front, p, rest, m, hfind, hslice, hread, hmethod, rfl, Member.specifiers_ne_nil hread,
    fun hp => hp.type_eq hread⟩

/-- A class whose only member is a constructor with a modifier. -/
def internalConstructor : List Char := "class A { protected internal A(int x) { } }".toList

theorem methods_extract_specified_internalConstructor :
    "#internal A(int x)" ∈ (extract .fullSignature .csharp internalConstructor).methods ∧
      (∃ d front p rest m,
        Declaration.find? .csharp (Masked.ofSource internalConstructor).skeleton = some d ∧
        slice (Masked.ofSource internalConstructor).skeleton d.body =
          front ++ (p.text ++ rest) ∧
        (Member.methodForm .csharp).recognize (p.text ++ rest) = some p ∧
        Method.ofPhrase? (.ofSource internalConstructor) d.body.stop
          (d.body.start + byteLength front) p = some m ∧
        "#internal A(int x)" = ExtractionMode.fullSignature.shown m ∧ p.specifiers ≠ [] ∧
        (p.IsConstructor → ∃ ws : List String, IsLead Language.modifiers ws p.lead ∧
          p.specifiers = ws.map String.toList ++ [p.type])) ∧
      Member.StartsConstructor .csharp ["internal"] "A".toList (internalConstructor.drop 10) ∧
      ∃ p, (Member.methodForm .csharp).recognize (internalConstructor.drop 10) = some p ∧
        p.specifiers = ["internal".toList] ∧ p.name = "A".toList := by
  have hentry : "#internal A(int x)" ∈
      (extract .fullSignature .csharp internalConstructor).methods := by decide +kernel
  have hgap : IsLead Language.modifiers [] [' '] := .gap (by decide) (by decide)
  have hlead : IsLead Language.modifiers ["internal"] ([' '] ++ ("internal".toList ++ [' '])) :=
    .modifier (by decide) (by decide) (by decide) hgap
  have htext : internalConstructor.drop 10 = "protected".toList ++
      (([' '] ++ ("internal".toList ++ [' '])) ++ ("A".toList ++ ([] ++ '(' ::
        "int x) \x7b \x7d \x7d".toList))) := by decide
  have hstarts : Member.StartsConstructor .csharp ["internal"] "A".toList
      (internalConstructor.drop 10) := by
    rw [htext]
    exact .intro (by decide) hlead (by decide) (by decide) _
  obtain ⟨hmethods, hconstructors⟩ :=
    methods_extract_specified .fullSignature .csharp internalConstructor
  exact ⟨hentry, hmethods _ hentry, hstarts,
    (hconstructors _ _ _ hstarts).mpr (List.cons_ne_nil _ _)⟩

/-- A constructor with a modifier is shown as a method in both modes. -/
theorem methods_extract_internalConstructor :
    (extract .fullSignature .csharp internalConstructor).methods = ["#internal A(int x)"] ∧
      (extract .nameOnly .csharp internalConstructor).methods = ["A()"] ∧
      ∃ p : Member.Phrase,
        (Member.methodForm .csharp).recognize (internalConstructor.drop 10) = some p ∧
          p.IsConstructor ∧ p.specifiers = ["internal".toList] := by
  refine ⟨by decide +kernel, by decide +kernel, ⟨"protected".toList, " ".toList,
    "internal".toList, " ".toList, "A".toList, "(".toList, none⟩, by decide +kernel, ?_,
    by decide +kernel⟩
  intro w hw
  obtain rfl : w = "internal".toList := List.mem_singleton.mp hw
  exact ⟨"internal", by decide +kernel, rfl⟩

end ClassDiagram
