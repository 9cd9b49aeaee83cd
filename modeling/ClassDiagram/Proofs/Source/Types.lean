import ClassDiagram.Proofs.Source.Reading

/-!
# What is read as a type

A type is a qualified name with optional arguments, array brackets and a question mark. Its
arguments reach as far as they can, so where a type ends also depends on what follows it.
-/

namespace ClassDiagram.Source

open Text

/-! ## Arguments of types -/

/-- What is split off ends with a closing bracket and breaks nowhere. -/
theorem mem_upToClosing {cs a rest : List Char} (h : (a, rest) ∈ upToClosing cs) :
    cs = a ++ rest ∧ Unbroken a := by
  induction cs generalizing a with
  | nil => simp [upToClosing] at h
  | cons c cs ih =>
      rw [upToClosing] at h
      split at h
      next => exact absurd h List.not_mem_nil
      next hc =>
        have hlater : (a, rest) ∈ (upToClosing cs).map (fun later => (c :: later.1, later.2)) →
            c :: cs = a ++ rest ∧ Unbroken a := by
          intro hmem
          obtain ⟨⟨inside, rest'⟩, hinside, heq⟩ := List.mem_map.mp hmem
          obtain ⟨rfl, rfl⟩ := Prod.mk.inj heq
          obtain ⟨rfl, hunbroken⟩ := ih hinside
          exact ⟨rfl, List.forall_mem_cons.mpr ⟨by simpa using hc, hunbroken⟩⟩
        dsimp only at h
        split at h
        next =>
          rcases List.mem_append.mp h with h | h
          · exact hlater h
          · obtain ⟨rfl, rfl⟩ := Prod.mk.inj (List.mem_singleton.mp h)
            exact ⟨rfl, List.forall_mem_singleton.mpr (by simpa using hc)⟩
        next => exact hlater h

theorem upToClosing_eq_nil {cs : List Char}
    (h : '>' ∉ cs.takeWhile (!endsArguments ·)) : upToClosing cs = [] := by
  induction cs with
  | nil => rfl
  | cons c cs ih =>
      rw [upToClosing]
      cases hc : endsArguments c with
      | true => rfl
      | false =>
          simp only [List.takeWhile_cons, hc, Bool.not_false, if_true, List.mem_cons, not_or] at h
          simp [ih h.2, Ne.symm h.1]

/-- The closing bracket tried first is the last one, whatever brackets stand before it. -/
theorem upToClosing_append {inner rest : List Char} (hinner : Unbroken inner)
    (hrest : '>' ∉ rest.takeWhile (!endsArguments ·)) :
    ∃ others, upToClosing (inner ++ '>' :: rest) = (inner ++ ['>'], rest) :: others := by
  induction inner with
  | nil => exact ⟨[], by simp [upToClosing, upToClosing_eq_nil hrest, endsArguments]⟩
  | cons c cs ih =>
      obtain ⟨others, hfirst⟩ := ih fun d hd => hinner d (List.mem_cons_of_mem _ hd)
      rw [List.cons_append, upToClosing, if_neg (by simp [hinner c List.mem_cons_self]), hfirst]
      dsimp only [List.map_cons]
      split
      · exact ⟨_, rfl⟩
      · exact ⟨_, rfl⟩

/-- White space, and arguments in angle brackets. -/
def IsArguments (args : List Char) : Prop :=
  ∃ gap inner, (∀ c ∈ gap, isBlank c = true) ∧ Unbroken inner ∧
    args = gap ++ '<' :: (inner ++ ['>'])

theorem mem_arguments {cs a rest : List Char} (h : (a, rest) ∈ arguments cs) :
    cs = a ++ rest ∧ Unbroken a := by
  unfold arguments at h
  split at h
  next cs =>
    obtain ⟨⟨inside, rest'⟩, hinside, heq⟩ := List.mem_map.mp h
    obtain ⟨rfl, rfl⟩ := Prod.mk.inj heq
    obtain ⟨rfl, hunbroken⟩ := mem_upToClosing hinside
    exact ⟨rfl, List.forall_mem_cons.mpr ⟨by decide, hunbroken⟩⟩
  next => exact absurd h List.not_mem_nil

theorem arguments_eq_nil {cs : List Char} (h : ∀ c ∈ cs.head?, c ≠ '<') : arguments cs = [] := by
  unfold arguments
  split
  next => exact absurd rfl (h '<' rfl)
  next => rfl

theorem mem_optionalArguments {cs a rest : List Char} (h : (a, rest) ∈ optionalArguments cs) :
    cs = a ++ rest ∧ Unbroken a := by
  unfold optionalArguments at h
  dsimp only [blanks] at h
  rcases List.mem_append.mp h with h | h
  · obtain ⟨⟨args, rest'⟩, hargs, heq⟩ := List.mem_map.mp h
    obtain ⟨rfl, rfl⟩ := Prod.mk.inj heq
    obtain ⟨hparts, hunbroken⟩ := mem_arguments hargs
    refine ⟨?_, (unbroken_of_forall_isBlank fun c hc => ?_).append hunbroken⟩
    · rw [List.append_assoc, ← hparts, List.takeWhile_append_dropWhile]
    · exact List.all_eq_true.mp List.all_takeWhile c hc
  · obtain ⟨rfl, rfl⟩ := Prod.mk.inj (List.mem_singleton.mp h)
    exact ⟨rfl, unbroken_nil⟩

theorem exists_closing_of_mem_upToClosing {cs a rest : List Char}
    (h : (a, rest) ∈ upToClosing cs) : ∃ inner, a = inner ++ ['>'] := by
  induction cs generalizing a with
  | nil => simp [upToClosing] at h
  | cons c cs ih =>
      have hlater : (a, rest) ∈ (upToClosing cs).map (fun later => (c :: later.1, later.2)) →
          ∃ inner, a = inner ++ ['>'] := by
        intro hmem
        obtain ⟨⟨inside, rest'⟩, hinside, heq⟩ := List.mem_map.mp hmem
        obtain ⟨rfl, rfl⟩ := Prod.mk.inj heq
        obtain ⟨inner, rfl⟩ := ih hinside
        exact ⟨c :: inner, rfl⟩
      rw [upToClosing] at h
      split at h
      next => exact absurd h List.not_mem_nil
      next =>
        dsimp only at h
        split at h
        next hclosing =>
          rcases List.mem_append.mp h with h | h
          · exact hlater h
          · obtain ⟨rfl, rfl⟩ := Prod.mk.inj (List.mem_singleton.mp h)
            exact ⟨[], by rw [hclosing]; rfl⟩
        next => exact hlater h

/-- What is split off as optional arguments is nothing else. -/
theorem isArguments_of_mem_optionalArguments {cs a rest : List Char}
    (h : (a, rest) ∈ optionalArguments cs) : a = [] ∨ IsArguments a := by
  unfold optionalArguments at h
  dsimp only [blanks] at h
  rcases List.mem_append.mp h with h | h
  · obtain ⟨⟨args, rest'⟩, hargs, heq⟩ := List.mem_map.mp h
    obtain ⟨rfl, rfl⟩ := Prod.mk.inj heq
    unfold arguments at hargs
    split at hargs
    next further _ =>
      obtain ⟨⟨inside, rest''⟩, hinside, heq⟩ := List.mem_map.mp hargs
      obtain ⟨rfl, rfl⟩ := Prod.mk.inj heq
      obtain ⟨_, hunbroken⟩ := mem_upToClosing hinside
      obtain ⟨inner, rfl⟩ := exists_closing_of_mem_upToClosing hinside
      refine .inr ⟨_, inner, (takeWhile_append_dropWhile_isBlank cs).2, ?_, rfl⟩
      exact fun c hc => hunbroken c (List.mem_append_left _ hc)
    next => exact absurd hargs List.not_mem_nil
  · exact .inl (Prod.mk.inj (List.mem_singleton.mp h)).1

theorem optionalArguments_append {args rest : List Char} (hargs : IsArguments args)
    (hrest : '>' ∉ rest.takeWhile (!endsArguments ·)) :
    ∃ others, optionalArguments (args ++ rest) = (args, rest) :: others := by
  obtain ⟨gap, inner, hgap, hinner, rfl⟩ := hargs
  obtain ⟨others, hfirst⟩ := upToClosing_append hinner hrest
  have hblanks : blanks (gap ++ '<' :: (inner ++ '>' :: rest)) =
      (gap, '<' :: (inner ++ '>' :: rest)) :=
    blanks_append hgap (forall_mem_head_cons (by decide) _)
  simp only [optionalArguments, List.append_assoc, List.cons_append, List.nil_append, hblanks,
    arguments, hfirst, List.map_cons]
  exact ⟨_, rfl⟩

theorem optionalArguments_of_no_bracket {cs : List Char}
    (h : ∀ c ∈ (cs.dropWhile isBlank).head?, c ≠ '<') : optionalArguments cs = [([], cs)] := by
  simp only [optionalArguments, blanks, arguments_eq_nil h, List.map_nil, List.nil_append]

/-! ## Suffixes of types -/

/-- White space or a comma, as it stands between array brackets. -/
def isRank (c : Char) : Bool := isBlank c || c = ','

/-- Array brackets, with white space in front of each pair. -/
inductive IsBrackets : List Char → Prop
  | none : IsBrackets []
  | pair {gap inner further : List Char} (hgap : ∀ c ∈ gap, isBlank c = true)
      (hinner : ∀ c ∈ inner, isRank c = true) (hfurther : IsBrackets further) :
      IsBrackets (gap ++ '[' :: (inner ++ ']' :: further))

theorem arrayBrackets_of_no_bracket {cs : List Char}
    (h : ∀ c ∈ (cs.dropWhile isBlank).head?, c ≠ '[') : arrayBrackets cs = ([], cs) := by
  rw [arrayBrackets]
  split
  next gap afterOpen hblanks =>
    simp only [blanks, Prod.mk.injEq] at hblanks
    exact absurd rfl (h '[' (by rw [hblanks.2]; rfl))
  next => rfl

theorem arrayBrackets_pair {gap inner rest : List Char} (hgap : ∀ c ∈ gap, isBlank c = true)
    (hinner : ∀ c ∈ inner, isRank c = true) :
    arrayBrackets (gap ++ '[' :: (inner ++ ']' :: rest)) =
      (gap ++ '[' :: (inner ++ ']' :: (arrayBrackets rest).1), (arrayBrackets rest).2) := by
  have hblanks : blanks (gap ++ '[' :: (inner ++ ']' :: rest)) =
      (gap, '[' :: (inner ++ ']' :: rest)) :=
    blanks_append hgap (forall_mem_head_cons (by decide) _)
  have hclosing : ∀ c ∈ (']' :: rest).head?, isRank c = false :=
    forall_mem_head_cons (by decide) rest
  have hdrop : (inner ++ ']' :: rest).dropWhile isRank = ']' :: rest :=
    dropWhile_append_of_head hinner hclosing
  have htake : (inner ++ ']' :: rest).takeWhile isRank = inner :=
    takeWhile_append_of_head hinner hclosing
  rw [arrayBrackets]
  split
  next gap' afterOpen hblanks' =>
    obtain ⟨rfl, hopen⟩ := Prod.mk.inj (hblanks.symm.trans hblanks')
    obtain rfl := List.tail_eq_of_cons_eq hopen
    dsimp only
    split
    next afterClose hi =>
      obtain rfl := List.tail_eq_of_cons_eq (hdrop.symm.trans hi)
      change (gap ++ '[' :: (inner ++ ']' :: rest).takeWhile isRank ++ _, _) = _
      rw [htake]
      simp
    next hno => exact absurd hdrop (hno _)
  next hno => exact absurd hblanks (hno _ _)

theorem arrayBrackets_append {brackets rest : List Char} (hbrackets : IsBrackets brackets)
    (hrest : ∀ c ∈ (rest.dropWhile isBlank).head?, c ≠ '[') :
    arrayBrackets (brackets ++ rest) = (brackets, rest) := by
  induction hbrackets with
  | none => exact arrayBrackets_of_no_bracket hrest
  | pair hgap hinner _ ih =>
      rw [List.append_assoc, List.cons_append, List.append_assoc, List.cons_append,
        arrayBrackets_pair hgap hinner, ih]

/-- What is split off as array brackets is nothing else. -/
theorem arrayBrackets_eq (cs : List Char) :
    cs = (arrayBrackets cs).1 ++ (arrayBrackets cs).2 ∧ IsBrackets (arrayBrackets cs).1 := by
  fun_induction arrayBrackets cs with
  | case1 cs gap afterOpen hb inside afterClose hi further rest hfurther ih =>
      rw [hfurther] at ih
      obtain ⟨hclose, hfurther⟩ := ih
      obtain ⟨hgap, hopen⟩ := Prod.mk.inj hb
      have hcs : cs = gap ++ '[' :: (afterOpen.takeWhile inside ++ ']' :: (further ++ rest)) := by
        rw [← hclose, ← hi, List.takeWhile_append_dropWhile, ← hgap, ← hopen,
          List.takeWhile_append_dropWhile]
      refine ⟨by simpa using hcs, ?_⟩
      simp only [List.append_assoc, List.cons_append]
      refine .pair (fun c hc => ?_) (fun c hc => ?_) hfurther
      · rw [← hgap] at hc
        exact List.all_eq_true.mp List.all_takeWhile c hc
      · exact List.all_eq_true.mp List.all_takeWhile c hc
  | case2 cs gap afterOpen hb inside hno => exact ⟨rfl, .none⟩
  | case3 cs hno => exact ⟨rfl, .none⟩

theorem endsArguments_of_isRank {c : Char} (h : isRank c = true) : endsArguments c = false := by
  rcases Bool.or_eq_true_iff.mp h with h | h
  · exact endsArguments_of_isBlank h
  · rw [of_decide_eq_true h]
    decide

theorem IsBrackets.unbroken {brackets : List Char} (h : IsBrackets brackets) :
    Unbroken brackets := by
  induction h with
  | none => exact unbroken_nil
  | pair hgap hinner _ ih =>
      refine (unbroken_of_forall_isBlank hgap).append (List.forall_mem_cons.mpr ⟨by decide, ?_⟩)
      exact Unbroken.append (fun c hc => endsArguments_of_isRank (hinner c hc))
        (List.forall_mem_cons.mpr ⟨by decide, ih⟩)

def IsMark (mark : List Char) : Prop := mark = [] ∨ mark = ['?']

theorem IsMark.unbroken {mark : List Char} (h : IsMark mark) : Unbroken mark := by
  rcases h with rfl | rfl
  · exact unbroken_nil
  · exact List.forall_mem_singleton.mpr (by decide)

theorem typeSuffix_eq {cs a rest : List Char} (h : typeSuffix cs = (a, rest)) :
    cs = a ++ rest ∧ ∃ brackets mark, IsBrackets brackets ∧ IsMark mark ∧ a = brackets ++ mark := by
  obtain ⟨hparts, hbrackets⟩ := arrayBrackets_eq cs
  unfold typeSuffix at h
  dsimp only at h
  split at h
  next rest' hmark =>
    obtain ⟨rfl, rfl⟩ := Prod.mk.inj h
    refine ⟨?_, _, _, hbrackets, .inr rfl, rfl⟩
    rw [hmark] at hparts
    simpa using hparts
  next =>
    obtain ⟨rfl, rfl⟩ := Prod.mk.inj h
    exact ⟨hparts, _, [], hbrackets, .inl rfl, (List.append_nil _).symm⟩

/-- A text in front of which the suffix of a type ends. -/
def EndsSuffix (rest : List Char) : Prop :=
  (∀ c ∈ (rest.dropWhile isBlank).head?, c ≠ '[') ∧ ∀ c ∈ rest.head?, c ≠ '?'

theorem typeSuffix_append {brackets mark rest : List Char} (hbrackets : IsBrackets brackets)
    (hmark : IsMark mark) (hrest : EndsSuffix rest) :
    typeSuffix (brackets ++ (mark ++ rest)) = (brackets ++ mark, rest) := by
  unfold typeSuffix
  rcases hmark with rfl | rfl
  · rw [List.nil_append, arrayBrackets_append hbrackets hrest.1]
    dsimp only
    split
    next rest => exact absurd rfl (hrest.2 '?' rfl)
    next => rw [List.append_nil]
  · have hmark : ∀ c ∈ ((['?'] ++ rest).dropWhile isBlank).head?, c ≠ '[' :=
      forall_mem_head_cons (by decide) rest
    rw [arrayBrackets_append hbrackets hmark]
    rfl

/-! ## Types -/

def isQualified (c : Char) : Bool := isWord c || c = '.'

/-- A text that is written as a type. -/
inductive IsType : List Char → Prop
  | mk {name args brackets mark : List Char} (hname : IsName isQualified name)
      (hargs : args = [] ∨ IsArguments args) (hbrackets : IsBrackets brackets)
      (hmark : IsMark mark) : IsType (name ++ (args ++ (brackets ++ mark)))

theorem endsArguments_of_isQualified {c : Char} (h : isQualified c = true) :
    endsArguments c = false := by
  rcases Bool.or_eq_true_iff.mp h with h | h
  · exact endsArguments_of_isWord h
  · rw [of_decide_eq_true h]
    decide

theorem IsName.isQualified {name : List Char} (h : IsName isQualified name) :
    ∀ c ∈ name, isQualified c = true := h.of_mem fun c hc => by simp [Source.isQualified, hc]

theorem isName_of_isIdentifier {name : List Char} (h : IsIdentifier name) :
    IsName isQualified name := by
  cases name with
  | nil => exact h.elim
  | cons c name => exact ⟨h.1, fun d hd => by simp [isQualified, h.2 d hd]⟩

theorem IsIdentifier.isType {name : List Char} (h : IsIdentifier name) : IsType name := by
  have htype := IsType.mk (isName_of_isIdentifier h) (.inl rfl) .none (.inl rfl)
  rwa [List.nil_append, List.nil_append, List.append_nil] at htype

/-- A type of word characters and white space is an identifier. -/
theorem IsType.isIdentifier {type : List Char} (h : IsType type)
    (hchars : ∀ c ∈ type, isBlank c = false → isWord c = true) : IsIdentifier type := by
  have hmark : ∀ c ∈ ['.', '<', '[', '?'], c ∉ type := by
    intro c hc hmem
    have hnot : ∀ c ∈ ['.', '<', '[', '?'], isBlank c = false ∧ isWord c = false := by
      decide +kernel
    have hword := hchars c hmem (hnot c hc).1
    rw [(hnot c hc).2] at hword
    exact absurd hword Bool.false_ne_true
  obtain ⟨hname, hargs, hbrackets, hsuffix⟩ := h
  next name args brackets mark =>
    -- Any other part of the type would bring in a mark.
    have hargs : args = [] := hargs.resolve_right fun ⟨gap, inner, _, _, hparts⟩ =>
      hmark '<' (by decide) (by simp [hparts])
    have hbrackets : brackets = [] := by
      cases hbrackets with
      | none => rfl
      | pair => exact absurd (by simp) (hmark '[' (by decide))
    have hsuffix : mark = [] := hsuffix.resolve_right fun hparts =>
      hmark '?' (by decide) (by simp [hparts])
    subst hargs hbrackets hsuffix
    rw [List.append_nil, List.append_nil, List.append_nil] at hmark ⊢
    cases name with
    | nil => exact hname.elim
    | cons c name =>
        refine ⟨hname.1, fun d hd => ?_⟩
        rcases Bool.or_eq_true_iff.mp (hname.2 d hd) with hword | hdot
        · exact hword
        · exact absurd (of_decide_eq_true hdot ▸ List.mem_cons_of_mem c hd)
            (hmark '.' (by decide))

/-- What is split off as a type breaks nowhere, and it starts with a name. -/
theorem mem_types {cs a rest : List Char} (h : (a, rest) ∈ types cs) :
    cs = a ++ rest ∧ Unbroken a ∧
      ∃ name further, IsName isQualified name ∧ a = name ++ further := by
  unfold types at h
  split at h
  next => exact absurd h List.not_mem_nil
  next name afterName hread =>
    obtain ⟨⟨args, afterArgs⟩, hmem, heq⟩ := List.mem_map.mp h
    obtain ⟨rfl, rfl⟩ := Prod.mk.inj heq
    obtain ⟨rfl, hname, _⟩ := Reader.named_eq_some hread
    obtain ⟨rfl, hargs⟩ := mem_optionalArguments hmem
    obtain ⟨hsuffix, brackets, mark, hbrackets, hmark, heq⟩ :=
      typeSuffix_eq (show typeSuffix afterArgs = (_, _) from rfl)
    refine ⟨?_, ?_, name, args ++ (typeSuffix afterArgs).1, hname, List.append_assoc ..⟩
    · rw [List.append_assoc, List.append_assoc, ← hsuffix]
    · refine Unbroken.append (Unbroken.append (fun c hc => ?_) hargs) ?_
      · exact endsArguments_of_isQualified (hname.isQualified c hc)
      · rw [heq]
        exact hbrackets.unbroken.append hmark.unbroken

/-- What is split off as a type is written as one. -/
theorem isType_of_mem_types {cs a rest : List Char} (h : (a, rest) ∈ types cs) : IsType a := by
  unfold types at h
  split at h
  next => exact absurd h List.not_mem_nil
  next name afterName hread =>
    obtain ⟨⟨args, afterArgs⟩, hmem, heq⟩ := List.mem_map.mp h
    obtain ⟨rfl, rfl⟩ := Prod.mk.inj heq
    obtain ⟨_, brackets, mark, hbrackets, hmark, hsuffix⟩ :=
      typeSuffix_eq (show typeSuffix afterArgs = (_, _) from rfl)
    rw [hsuffix, List.append_assoc]
    exact ⟨(Reader.named_eq_some hread).2.1, isArguments_of_mem_optionalArguments hmem, hbrackets,
      hmark⟩

/-- A text in front of which a type ends. -/
structure EndsType (rest : List Char) : Prop where
  head : ∀ c ∈ rest.head?, isQualified c = false ∧ c ≠ '?'
  next : ∀ c ∈ (rest.dropWhile isBlank).head?, c ≠ '<' ∧ c ≠ '['
  closing : '>' ∉ rest.takeWhile (!endsArguments ·)

theorem isQualified_of_isBlank {c : Char} (h : isBlank c = true) : isQualified c = false := by
  rw [isQualified, isWord_of_isBlank h, Bool.false_or, decide_eq_false_iff_not]
  rintro rfl
  exact absurd h (by decide)

/-- A type ends in front of white space and a name. -/
theorem endsType_gap_name {gap name rest : List Char} (hne : gap ≠ [])
    (hgap : ∀ c ∈ gap, isBlank c = true) (hname : IsIdentifier name)
    (hrest : '>' ∉ rest.takeWhile (!endsArguments ·)) : EndsType (gap ++ (name ++ rest)) where
  head c hc := by
    rw [List.head?_append_of_ne_nil _ hne] at hc
    have hblank := hgap c (List.mem_of_mem_head? hc)
    refine ⟨isQualified_of_isBlank hblank, ?_⟩
    rintro rfl
    exact absurd hblank (by decide)
  next c hc := by
    have hhead := hname.head rest
    rw [List.dropWhile_append_of_pos hgap,
      dropWhile_of_head fun d hd => isBlank_of_isWord (hhead d hd)] at hc
    have hword := hhead c hc
    constructor <;> rintro rfl <;> exact absurd hword (by decide +kernel)
  closing := by
    rw [takeWhile_unbroken_append (unbroken_of_forall_isBlank hgap),
      takeWhile_unbroken_append (unbroken_of_isWord hname.isWord), List.mem_append,
      List.mem_append, not_or, not_or]
    refine ⟨fun h => ?_, fun h => ?_, hrest⟩
    · exact absurd (hgap _ h) (by decide)
    · exact absurd (hname.isWord _ h) (by decide +kernel)

theorem IsMark.head {mark rest : List Char} (h : IsMark mark)
    (hrest : ∀ c ∈ rest.head?, isQualified c = false) :
    ∀ c ∈ (mark ++ rest).head?, isQualified c = false := by
  rcases h with rfl | rfl
  · exact hrest
  · exact forall_mem_head_cons (by decide +kernel) rest

theorem IsBrackets.head {brackets rest : List Char} (h : IsBrackets brackets)
    (hrest : ∀ c ∈ rest.head?, isQualified c = false) :
    ∀ c ∈ (brackets ++ rest).head?, isQualified c = false := by
  cases h with
  | none => exact hrest
  | pair hgap _ _ =>
      rw [List.append_assoc, List.cons_append]
      exact forall_mem_head_blanks isQualified_of_isBlank hgap (by decide +kernel) _

theorem IsArguments.head {args rest : List Char} (h : IsArguments args) :
    ∀ c ∈ (args ++ rest).head?, isQualified c = false := by
  obtain ⟨gap, inner, hgap, _, rfl⟩ := h
  rw [List.append_assoc, List.cons_append]
  exact forall_mem_head_blanks isQualified_of_isBlank hgap (by decide +kernel) _

theorem IsBrackets.not_mem_closing {brackets : List Char} (h : IsBrackets brackets) :
    '>' ∉ brackets := by
  induction h with
  | none => exact List.not_mem_nil
  | pair hgap hinner _ ih =>
      simp only [List.mem_append, List.mem_cons, not_or]
      exact ⟨fun hc => absurd (hgap _ hc) (by decide), by decide,
        fun hc => absurd (hinner _ hc) (by decide), by decide, ih⟩

theorem IsMark.not_mem_closing {mark : List Char} (h : IsMark mark) : '>' ∉ mark := by
  rcases h with rfl | rfl <;> decide

theorem head_dropWhile_blanks {gap tail : List Char} {d : Char}
    (hgap : ∀ c ∈ gap, isBlank c = true) (hd : isBlank d = false) :
    ((gap ++ d :: tail).dropWhile isBlank).head? = some d := by
  rw [List.dropWhile_append_of_pos hgap, List.dropWhile_cons, hd]
  rfl

/-- The suffix of a type is not taken for arguments. -/
theorem next_suffix {brackets mark rest : List Char} (hbrackets : IsBrackets brackets)
    (hmark : IsMark mark) (hrest : EndsType rest) :
    ∀ c ∈ ((brackets ++ (mark ++ rest)).dropWhile isBlank).head?, c ≠ '<' := by
  intro c hc
  cases hbrackets with
  | none =>
      rcases hmark with rfl | rfl
      · exact (hrest.next c hc).1
      · obtain rfl := Option.some.inj hc
        decide
  | pair hgap _ _ =>
      rw [List.append_assoc, List.cons_append, head_dropWhile_blanks hgap (by decide)] at hc
      obtain rfl := Option.some.inj hc
      decide

/-- The split tried first takes the whole of a type. -/
theorem types_append {type rest : List Char} (htype : IsType type) (hrest : EndsType rest) :
    ∃ others, types (type ++ rest) = (type, rest) :: others := by
  obtain @⟨name, args, brackets, mark, hname, hargs, hbrackets, hmark⟩ := htype
  have hsuffix : typeSuffix (brackets ++ (mark ++ rest)) = (brackets ++ mark, rest) :=
    typeSuffix_append hbrackets hmark
      ⟨fun c hc => (hrest.next c hc).2, fun c hc => (hrest.head c hc).2⟩
  have hhead : ∀ c ∈ (brackets ++ (mark ++ rest)).head?, isQualified c = false :=
    hbrackets.head (hmark.head fun c hc => (hrest.head c hc).1)
  have hread : Reader.qualified (name ++ (args ++ (brackets ++ (mark ++ rest)))) =
      some (name, args ++ (brackets ++ (mark ++ rest))) := by
    apply Reader.named_append hname
    rcases hargs with rfl | hargs
    · exact hhead
    · exact hargs.head
  have hargsFirst : ∃ others, optionalArguments (args ++ (brackets ++ (mark ++ rest))) =
      (args, brackets ++ (mark ++ rest)) :: others := by
    rcases hargs with rfl | hargs
    · have hnext := next_suffix hbrackets hmark hrest
      exact ⟨[], optionalArguments_of_no_bracket hnext⟩
    · -- The brackets reach to the last closing one, and none follows before the text breaks.
      apply optionalArguments_append hargs
      rw [takeWhile_unbroken_append hbrackets.unbroken, takeWhile_unbroken_append hmark.unbroken,
        List.mem_append, List.mem_append, not_or, not_or]
      exact ⟨hbrackets.not_mem_closing, hmark.not_mem_closing, hrest.closing⟩
  obtain ⟨others, hfirst⟩ := hargsFirst
  simp only [types, List.append_assoc, hread, hfirst, List.map_cons, hsuffix]
  exact ⟨_, rfl⟩

/-! ## The end of a type -/

theorem IsBrackets.eq_nil_or_last {brackets : List Char} (h : IsBrackets brackets) :
    brackets = [] ∨ ∃ front, brackets = front ++ [']'] := by
  induction h with
  | none => exact .inl rfl
  | @pair gap inner further _ _ _ ih =>
      refine .inr ?_
      rcases ih with rfl | ⟨front, rfl⟩
      · exact ⟨gap ++ '[' :: inner, by simp⟩
      · exact ⟨gap ++ '[' :: (inner ++ ']' :: front), by simp⟩

/-- A type is a name, or it ends with a mark. -/
theorem IsType.isName_or_last {type : List Char} (h : IsType type) :
    IsName isQualified type ∨ ∃ front, ∃ m ∈ ['>', ']', '?'], type = front ++ [m] := by
  obtain @⟨name, args, brackets, mark, hname, hargs, hbrackets, hmark⟩ := h
  rcases hmark with rfl | rfl
  · rcases hbrackets.eq_nil_or_last with rfl | ⟨front, rfl⟩
    · rcases hargs with rfl | ⟨gap, inner, _, _, rfl⟩
      · exact .inl (by simpa using hname)
      · exact .inr ⟨name ++ (gap ++ '<' :: inner), '>', by simp, by simp⟩
    · exact .inr ⟨name ++ (args ++ front), ']', by simp, by simp⟩
  · exact .inr ⟨name ++ (args ++ brackets), '?', by simp, by simp⟩

/-- A type ends with a character that is neither white space nor a quote. -/
theorem IsType.exists_last {type : List Char} (h : IsType type) :
    ∃ front m, type = front ++ [m] ∧ isBlank m = false ∧ m ∉ ['"', '\''] := by
  rcases h.isName_or_last with hname | ⟨front, m, hm, rfl⟩
  · obtain ⟨front, m, rfl⟩ : ∃ front m, type = front ++ [m] :=
      ⟨_, _, (List.dropLast_append_getLast hname.ne_nil).symm⟩
    have hm := hname.isQualified m (List.mem_append_right _ (List.mem_singleton_self m))
    refine ⟨front, m, rfl, ?_, not_mem_of_apply (p := isQualified) (by decide +kernel) hm⟩
    rw [Bool.eq_false_iff]
    intro hblank
    rw [isQualified_of_isBlank hblank] at hm
    exact Bool.false_ne_true hm
  · have hmarks : ∀ m ∈ ['>', ']', '?'], isBlank m = false ∧ m ∉ ['"', '\''] := by decide
    exact ⟨front, m, rfl, hmarks m hm⟩

/-- A type whose last word has only word characters is that word. -/
theorem IsType.eq_of_last_word {type last : List Char} {front : List (List Char)} (h : IsType type)
    (hwords : words type = front ++ [last]) (hlast : ∀ c ∈ last, isWord c = true) :
    type = last := by
  rcases h.isName_or_last with hname | ⟨cs, m, hm, rfl⟩
  · have hblank : ∀ c ∈ type, isBlank c = false := fun c hc => by
      rw [Bool.eq_false_iff]
      intro hcblank
      have hqualified := hname.isQualified c hc
      rw [isQualified_of_isBlank hcblank] at hqualified
      exact Bool.false_ne_true hqualified
    rw [words_of_forall_not_blank hname.ne_nil hblank] at hwords
    obtain ⟨_, hlast⟩ := List.append_inj' (show [] ++ [type] = front ++ [last] from hwords) rfl
    exact List.singleton_inj.mp hlast
  · have hnot : ∀ m ∈ ['>', ']', '?'], isBlank m = false ∧ isWord m = false := by decide +kernel
    obtain ⟨_, last', hwords'⟩ := exists_last_word cs (hnot m hm).1
    rw [hwords] at hwords'
    obtain rfl := List.singleton_inj.mp (List.append_inj' hwords' rfl).2
    have hword := hlast m (List.mem_append_right _ (List.mem_singleton_self m))
    rw [(hnot m hm).2] at hword
    exact absurd hword Bool.false_ne_true

theorem IsType.words_ne_nil {type : List Char} (h : IsType type) : words type ≠ [] := by
  obtain @⟨name, _, _, _, hname, _, _, _⟩ := h
  obtain ⟨c, cs, rfl⟩ := List.exists_cons_of_ne_nil hname.ne_nil
  exact Text.words_ne_nil List.mem_cons_self (isBlank_of_isWord (isWord_of_startsName hname.1))

/-- The last of several words that end with a type is the type, if it has only word characters. -/
theorem IsType.eq_of_append_words {type last : List Char} {before front : List (List Char)}
    (h : IsType type) (hwords : before ++ words type = front ++ [last])
    (hlast : ∀ c ∈ last, isWord c = true) : type = last := by
  obtain ⟨front', last', htype⟩ := List.eq_nil_or_concat (words type)
    |>.resolve_left h.words_ne_nil
  rw [List.concat_eq_append] at htype
  rw [htype, ← List.append_assoc] at hwords
  obtain ⟨_, hsame⟩ := List.append_inj' hwords rfl
  obtain rfl := List.singleton_inj.mp hsame
  exact h.eq_of_last_word htype hlast

end ClassDiagram.Source
