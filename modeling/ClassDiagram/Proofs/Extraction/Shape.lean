import ClassDiagram.Extraction
import ClassDiagram.Proofs.Declaration.Closed
import ClassDiagram.Proofs.Extraction.Constructor
import ClassDiagram.Proofs.Source.Program

/-!
# The shape of members

The parts of a declaration are found in the skeleton of a source, where no literal shows, but its
text is cut from the code, which shows the literals. So a member has none of the marks that end a
declaration except those that stand in a literal, and these it has all.
-/

namespace ClassDiagram

open Text Source

/-! ## What a stretch of a source shows -/

namespace Source

theorem isBlank_of_endsArguments {c : Char} (h : endsArguments c = true) : isBlank c = false := by
  rw [Bool.eq_false_iff]
  intro hblank
  rw [endsArguments_of_isBlank hblank] at h
  exact Bool.false_ne_true h

/-- The code shows the characters of program text and of literals. -/
theorem mem_code_iff {shown : List (Char × Layer)} {c : Char} (hc : isBlank c = false) :
    c ∈ shown.flatMap inCode ↔ (c, .program) ∈ shown ∨ (c, .literal) ∈ shown := by
  rw [List.mem_flatMap]
  constructor
  · rintro ⟨⟨x, layer⟩, hmem, hx⟩
    cases layer with
    | program => exact .inl (List.mem_singleton.mp hx ▸ hmem)
    | literal => exact .inr (List.mem_singleton.mp hx ▸ hmem)
    | comment =>
        rw [isBlank_of_mem_blank hx] at hc
        exact absurd hc (by decide)
  · rintro (hmem | hmem)
    · exact ⟨_, hmem, List.mem_singleton_self c⟩
    · exact ⟨_, hmem, List.mem_singleton_self c⟩

/-- The skeleton shows the characters of program text. -/
theorem mem_skeleton_of_program {shown : List (Char × Layer)} {c : Char}
    (h : (c, .program) ∈ shown) : c ∈ shown.flatMap inSkeleton :=
  List.mem_flatMap.mpr ⟨_, h, List.mem_singleton_self c⟩

/-- A stretch that breaks nowhere shows the breaking characters of its literals. -/
theorem mem_shown_iff {shown : List (Char × Layer)} (h : Unbroken (shown.flatMap inSkeleton))
    {c : Char} (hc : endsArguments c = true) :
    c ∈ normalizeBlanks (shown.flatMap inCode) ↔ (c, .literal) ∈ shown := by
  have hblank := isBlank_of_endsArguments hc
  rw [mem_normalizeBlanks_iff hblank, mem_code_iff hblank]
  refine ⟨fun hmem => hmem.resolve_left fun hprogram => ?_, .inr⟩
  rw [h c (mem_skeleton_of_program hprogram)] at hc
  exact Bool.false_ne_true hc

/-- The last character that a stretch shows is `c`, and it stands in a literal. -/
def EndsInLiteral (shown : List (Char × Layer)) (c : Char) : Prop :=
  ∃ before after, shown = before ++ (c, .literal) :: after ∧
    ∀ d ∈ after.flatMap inCode, isBlank d = true

/-- Behind a character of program text that is sure to show, a stretch ends with another character
exactly if it ends so in a literal, unless this one is program text as well. -/
theorem getLast?_shown_iff {before after : List (Char × Layer)} {m c : Char}
    (hm : isBlank m = false) (hc : isBlank c = false) (hne : c ≠ m)
    (hafter : (c, .program) ∉ after) :
    (normalizeBlanks ((before ++ (m, .program) :: after).flatMap inCode)).getLast? = some c ↔
      EndsInLiteral (before ++ (m, .program) :: after) c := by
  constructor
  · intro hlast
    rcases forall_blank_or_last ((before ++ (m, .program) :: after).flatMap inCode) with
      hblank | ⟨front, last, back, hparts, hlastBlank, hback⟩
    · have hshown : m ∈ (before ++ (m, Layer.program) :: after).flatMap inCode :=
        (mem_code_iff hm).mpr (.inl (by simp))
      rw [hblank m hshown] at hm
      exact absurd hm (by decide)
    · rw [hparts, getLast?_normalizeBlanks front hlastBlank hback] at hlast
      obtain rfl := Option.some.inj hlast
      obtain ⟨place, layer, later, htagged, hshown, _, rfl⟩ :=
        isCopy_inCode.exists_tag hparts (ne_space hc)
      refine ⟨place, later, ?_, hback⟩
      cases layer with
      | literal => exact htagged
      | comment => exact absurd hshown (ne_blank hc last)
      | program =>
          -- Program text stands neither behind `m` nor, being the last, in front of it.
          rcases List.append_eq_append_iff.mp htagged with
            ⟨between, _, hparts⟩ | ⟨between, _, hparts⟩
          · cases between with
            | nil => exact absurd (Prod.mk.inj (List.cons.inj hparts).1).1.symm hne
            | cons head between =>
                obtain ⟨_, rfl⟩ := List.cons.inj hparts
                exact absurd (List.mem_append_right _ List.mem_cons_self) hafter
          · cases between with
            | nil => exact absurd (Prod.mk.inj (List.cons.inj hparts).1).1 hne
            | cons head between =>
                obtain ⟨_, rfl⟩ := List.cons.inj hparts
                have hmem := hback m ((mem_code_iff hm).mpr (.inl (by simp)))
                rw [hm] at hmem
                exact absurd hmem Bool.false_ne_true
  · rintro ⟨place, later, htagged, hlater⟩
    rw [htagged, List.flatMap_append, List.flatMap_cons]
    exact getLast?_normalizeBlanks _ hc hlater

theorem unbroken_normalizeBlanks {cs : List Char} (h : Unbroken cs) :
    Unbroken (normalizeBlanks cs) := by
  intro c hc
  cases hblank : isBlank c with
  | true => exact endsArguments_of_isBlank hblank
  | false => exact h c ((mem_normalizeBlanks_iff hblank).mp hc)

/-- A stretch ends with the program text that its skeleton ends with. -/
theorem getLast?_shown {shown : List (Char × Layer)} {front : List Char} {c : Char}
    (h : shown.flatMap inSkeleton = front ++ [c]) (hc : isBlank c = false) :
    (normalizeBlanks (shown.flatMap inCode)).getLast? = some c := by
  obtain ⟨before, after, rfl, _, hafter⟩ := exists_program_of_flatMap h hc
  obtain rfl := eq_nil_of_skeleton hafter
  rw [List.flatMap_append]
  exact getLast?_normalizeBlanks _ hc (by simp)

/-- A text that has no breaking character and ends with a word. -/
structure IsClean (cs : List Char) : Prop where
  unbroken : Unbroken cs
  last : ∃ c ∈ cs.getLast?, isWord c = true

theorem IsClean.cons {c : Char} {cs : List Char} (h : IsClean cs) (hc : endsArguments c = false) :
    IsClean (c :: cs) where
  unbroken := List.forall_mem_cons.mpr ⟨hc, h.unbroken⟩
  last := by
    obtain ⟨d, hd, hword⟩ := h.last
    exact ⟨d, by rw [List.getLast?_cons, Option.mem_def.mp hd]; rfl, hword⟩

theorem getLast?_append_isIdentifier {name : List Char} (hname : IsIdentifier name)
    (front : List Char) : ∃ c ∈ (front ++ name).getLast?, isWord c = true := by
  have hlast := List.getLast?_eq_some_getLast hname.ne_nil
  refine ⟨_, ?_, hname.isWord _ (List.getLast_mem hname.ne_nil)⟩
  rw [List.getLast?_append, hlast]
  rfl

end Source

/-- The clauses of a method have no brace and no semicolon. They end at the end of the text, where a
character follows that is no white space, or as soon as they reach the end of the body. -/
theorem Method.exists_clauses (stop offset : Nat) (cs : List Char) : ∃ clauses rest,
    cs = clauses ++ rest ∧ clausesEnd stop offset cs = offset + byteLength clauses ∧
      (∀ c ∈ clauses, c ≠ ';' ∧ c ≠ '{') ∧
      (∀ front c, clauses = front ++ [c] → offset + byteLength front < stop) ∧
      (rest = [] ∨ (∃ c ∈ rest.head?, isBlank c = false) ∨ stop ≤ offset + byteLength clauses) := by
  induction cs generalizing offset with
  | nil => exact ⟨[], [], rfl, rfl, by simp, by simp, .inl rfl⟩
  | cons c cs ih =>
      rw [clausesEnd]
      split
      next hend =>
        refine ⟨[], c :: cs, rfl, rfl, by simp, by simp, .inr ?_⟩
        simp only [Bool.or_eq_true, Bool.and_eq_true, decide_eq_true_eq] at hend
        rcases hend with ((hstop | rfl) | rfl) | ⟨rfl, _⟩
        · exact .inr (by simpa using hstop)
        · exact .inl ⟨_, rfl, by decide⟩
        · exact .inl ⟨_, rfl, by decide⟩
        · exact .inl ⟨_, rfl, by decide⟩
      next hend =>
        simp only [Bool.or_eq_true, Bool.and_eq_true, decide_eq_true_eq, not_or, not_le] at hend
        obtain ⟨clauses, rest, rfl, hclauses, hmarks, hbefore, hrest⟩ := ih (offset + c.utf8Size)
        refine ⟨c :: clauses, rest, rfl, ?_, ?_, fun front e hparts => ?_, ?_⟩
        · rw [hclauses, byteLength_cons, Nat.add_assoc]
        · exact List.forall_mem_cons.mpr ⟨⟨hend.1.2, hend.1.1.2⟩, hmarks⟩
        · cases front with
          | nil => exact hend.1.1.1
          | cons d front =>
              obtain ⟨hsame, hlater⟩ := List.cons.inj hparts
              have := hbefore front e hlater
              rw [byteLength_cons, ← hsame]
              omega
        · rw [byteLength_cons, ← Nat.add_assoc]
          exact hrest

/-! ## Where members stand -/

section Body

variable {language : Language} {source : List Char} {d : Declaration}
  (hfind : Declaration.find? language (Masked.ofSource source).skeleton = some d)
  {form : Member.Form} {ends : List Char} {o : Nat} {p : Member.Phrase}

include hfind

/-- A declaration in a body is read up to the end of the body, where the source can be divided. -/
theorem exists_place_in_body
    (hmem : (o, p) ∈ form.within (Masked.ofSource source).skeleton d.body) :
    ∃ before back after, (Masked.ofSource source).skeleton = before ++ (back ++ after) ∧
      o = byteLength before ∧ form.recognize back = some p ∧
      d.body.stop = byteLength (before ++ back) ∧ IsCut source (before ++ back) after := by
  obtain ⟨between, back, hslice, rfl, hread⟩ := Member.Form.mem_within hmem
  rcases Declaration.exists_body_of_find? hfind with
    hnil | ⟨before, body, after, hskeleton, hbody, hafter⟩
  · -- In a text without characters nothing is read.
    rw [hnil] at hslice
    rw [Member.Form.within, hnil] at hmem
    exact absurd hmem List.not_mem_nil
  · rw [hbody, hskeleton, slice_append_of_eq rfl (by rw [byteLength_append])] at hslice
    subst hslice
    refine ⟨before ++ between, back, after, by simp [hskeleton], by simp [hbody], hread,
      by simp [hbody], ?_⟩
    rcases hafter with rfl | ⟨rest, rfl⟩
    · have hcut := isCut_end source
      rw [hskeleton] at hcut
      simpa using hcut
    · exact isCut_before (by simp [hskeleton]) (by decide)

omit hfind in
theorem isCut_word {a w b : List Char} (hw : IsIdentifier w)
    (h : (Masked.ofSource source).skeleton = (a ++ w) ++ b) : IsCut source (a ++ w) b := by
  obtain ⟨init, c, rfl⟩ : ∃ init c, w = init ++ [c] :=
    ⟨_, _, (List.dropLast_append_getLast hw.ne_nil).symm⟩
  have hc := hw.isWord c (List.mem_append_right _ (List.mem_singleton_self c))
  rw [← List.append_assoc] at h ⊢
  exact isCut_after h (isBlank_of_isWord hc)

/-- The source can be divided on both sides of what stands between the access keyword of a member
and the end of its name. -/
theorem exists_cuts_of_declarator (hform : form.Breaks ends)
    (hmem : (o, p) ∈ form.within (Masked.ofSource source).skeleton d.body) :
    ∃ before rest, o + byteLength p.access = byteLength before ∧
      IsCut source before (p.declarator ++ rest) ∧
      IsCut source (before ++ p.declarator) rest := by
  obtain ⟨front, back, after, hskeleton, rfl, hread, _⟩ := exists_place_in_body hfind hmem
  obtain ⟨w, hw, haccess⟩ := Member.Form.exists_access hread
  obtain ⟨rest, rfl, _⟩ := hform.exists_afterName hread
  have hdeclarator : p.declarator = (p.lead ++ p.type ++ p.gap) ++ p.name := by
    simp [Member.Phrase.declarator]
  refine ⟨front ++ p.access, rest ++ after, (byteLength_append _ _).symm,
    isCut_word (haccess ▸ hform.access w hw) (by simp [hskeleton]), ?_⟩
  rw [hdeclarator, ← List.append_assoc]
  exact isCut_word (Member.Form.isIdentifier_name hread) (by simp [hskeleton, hdeclarator])

/-! ## Fields -/

/-- A field shows the stretch from its access keyword to the end of its name. -/
theorem exists_shown_of_field {f : Field}
    (hf : f ∈ Field.declared language (.ofSource source) d.body) :
    ∃ shown, shown <:+: layers source ∧ Unbroken (shown.flatMap inSkeleton) ∧
      f.signature.toList = normalizeBlanks (shown.flatMap inCode) ∧
      ∃ c ∈ f.signature.toList.getLast?, isWord c = true := by
  have hform := Member.fieldForm_breaks language
  obtain ⟨⟨o, p⟩, hmem, rfl⟩ := List.mem_map.mp hf
  obtain ⟨_, _, _, _, hread⟩ := Member.Form.mem_within hmem
  have hname := Member.Form.isIdentifier_name hread
  have hunbroken := hform.unbroken_declarator hread
  obtain ⟨before, rest, hoffset, hstart, hstop⟩ := exists_cuts_of_declarator hfind hform hmem
  obtain ⟨shown, hinfix, hshown, hslice⟩ := hstart.exists_stretch hstop
  have hsignature : (Field.ofPhrase (Masked.ofSource source).code o p).signature.toList =
      normalizeBlanks (shown.flatMap inCode) := by
    rw [← hslice, byteLength_append, ← hoffset]
    simp only [Field.ofPhrase, String.toList_ofList]
  refine ⟨shown, hinfix, hshown ▸ hunbroken, hsignature, ?_⟩
  obtain ⟨init, c, hlast⟩ : ∃ init c, p.name = init ++ [c] :=
    ⟨_, _, (List.dropLast_append_getLast hname.ne_nil).symm⟩
  have hword := hname.isWord c (hlast ▸ List.mem_append_right _ (List.mem_singleton_self c))
  rw [Member.Phrase.declarator, hlast, ← List.append_assoc] at hshown
  rw [hsignature]
  exact ⟨c, getLast?_shown hshown (isBlank_of_isWord hword), hword⟩

/-! ## Methods -/

omit hfind in
/-- If the clauses of a method reach to the end of the body, the source can be divided there. -/
theorem isCut_clauses {text clauses rest body after : List Char} {stop : Nat}
    (hskeleton : (Masked.ofSource source).skeleton = (text ++ clauses) ++ rest)
    (hbody : (Masked.ofSource source).skeleton = body ++ after)
    (hstop : stop = byteLength body) (hcut : IsCut source body after)
    (htext : IsCut source text (clauses ++ rest))
    (hbefore : ∀ front c, clauses = front ++ [c] → byteLength text + byteLength front < stop)
    (hrest : rest = [] ∨ (∃ c ∈ rest.head?, isBlank c = false) ∨
      stop ≤ byteLength text + byteLength clauses) : IsCut source (text ++ clauses) rest := by
  subst hstop
  rcases hrest with rfl | ⟨c, hc, hblank⟩ | hreach
  · have hend := isCut_end source
    rwa [hskeleton, List.append_nil] at hend
  · obtain ⟨rest, rfl⟩ := List.head?_eq_some_iff.mp hc
    exact isCut_before hskeleton hblank
  · rcases List.eq_nil_or_concat clauses with rfl | ⟨front, c, rfl⟩
    · rwa [List.append_nil]
    · -- The last character of the clauses starts in the body, and so it ends with the body.
      rw [List.concat_eq_append] at hskeleton hreach ⊢
      have hlast := hbefore front c List.concat_eq_append
      rw [byteLength_append] at hreach
      have hparts : (text ++ front) ++ c :: rest = body ++ after := by
        rw [← hbody, hskeleton]
        simp
      rcases List.append_eq_append_iff.mp hparts with ⟨inner, rfl, hinner⟩ | ⟨inner, htext, _⟩
      · cases inner with
        | nil => simp at hlast
        | cons e inner =>
            obtain ⟨rfl, rfl⟩ := List.cons.inj hinner
            have hinner : inner = [] := by
              apply eq_nil_of_byteLength
              simp only [byteLength_append, byteLength_cons, byteLength_nil] at hreach
              omega
            subst hinner
            simpa using hcut
      · have hsize := congrArg byteLength htext
        simp only [byteLength_append] at hsize
        omega

omit hfind in
/-- A parameter list ends behind the parenthesis that closes it. -/
theorem Method.exists_parts_of_closing {skeleton text rest : List Char} {close : Nat}
    (hskeleton : skeleton = text ++ '(' :: rest)
    (h : partner? '(' ')' (byteLength text) ('(' :: rest) = some close) :
    ∃ inner further, '(' :: rest = inner ++ ')' :: further ∧
      skeleton = (text ++ (inner ++ [')'])) ++ further ∧
      close + 1 = byteLength (text ++ (inner ++ [')'])) := by
  obtain ⟨inner, further, hinner, rfl, _⟩ := closingFrom_eq_some h
  have hmark : ')'.utf8Size = 1 := by decide
  refine ⟨inner, further, hinner, ?_, ?_⟩
  · rw [hskeleton, hinner]
    simp
  · simp only [byteLength_append, byteLength_cons, byteLength_nil, hmark]
    omega

omit hfind in
/-- The signature of a method ends behind the clauses that follow its closed parameter list. -/
theorem Method.signatureEnd?_eq_some {skeleton text rest : List Char} {stop signatureEnd : Nat}
    (hskeleton : skeleton = text ++ '(' :: rest)
    (h : signatureEnd? skeleton stop (byteLength text) = some signatureEnd) :
    ∃ inner clauses remaining, '(' :: rest = inner ++ ')' :: (clauses ++ remaining) ∧
      signatureEnd = byteLength (text ++ (inner ++ [')']) ++ clauses) ∧
      (∀ c ∈ clauses, c ≠ ';' ∧ c ≠ '{') ∧
      (∀ before c, clauses = before ++ [c] →
        byteLength (text ++ (inner ++ [')'])) + byteLength before < stop) ∧
      (remaining = [] ∨ (∃ c ∈ remaining.head?, isBlank c = false) ∨
        stop ≤ byteLength (text ++ (inner ++ [')'])) + byteLength clauses) := by
  simp only [signatureEnd?, Option.bind_eq_bind, Option.bind_eq_some_iff] at h
  obtain ⟨close, hclose, hend⟩ := h
  obtain rfl := Option.some.inj hend
  rw [hskeleton, dropBytes_append] at hclose
  obtain ⟨inner, further, hinner, hclosed, hsize⟩ :=
    Method.exists_parts_of_closing hskeleton hclose
  obtain ⟨clauses, remaining, rfl, hclauses, hrest⟩ :=
    Method.exists_clauses stop (byteLength (text ++ (inner ++ [')']))) further
  refine ⟨inner, clauses, remaining, hinner, ?_, hrest⟩
  rw [hsize, hclosed, dropBytes_append, hclauses, byteLength_append (text ++ _)]

/-- The parameter list of a method opens with the last character that is read of it. -/
theorem exists_parts_of_method
    (hmem : (o, p) ∈ (Member.methodForm language).within (Masked.ofSource source).skeleton d.body) :
    ∃ before lead rest, (Masked.ofSource source).skeleton = (before ++ lead) ++ '(' :: rest ∧
      o + byteLength p.access = byteLength before ∧
      o + byteLength p.text - 1 = byteLength (before ++ lead) ∧
      IsCut source before (lead ++ '(' :: rest) ∧
      ∃ body after, (Masked.ofSource source).skeleton = body ++ after ∧
        d.body.stop = byteLength body ∧ IsCut source body after := by
  obtain ⟨front, back, behind, hplace, rfl, hread, hstop, hcut⟩ :=
    exists_place_in_body hfind hmem
  have hform := Member.methodForm_breaks language
  obtain ⟨w, hw, haccess⟩ := Member.Form.exists_access hread
  obtain ⟨afterName, rfl, htail⟩ := hform.exists_afterName hread
  obtain ⟨parameters, gap, rest, rfl, hopened, _⟩ := Member.methodTail_eq_some htail
  have hmark : '('.utf8Size = 1 := by decide
  refine ⟨front ++ p.access, p.declarator ++ (parameters ++ gap), rest ++ behind, ?_,
    (byteLength_append _ _).symm, ?_, ?_, _, _, ?_, hstop, hcut⟩
  · simp [hplace]
  · simp only [Member.Phrase.text, hopened, byteLength_append, byteLength_cons, byteLength_nil,
      hmark]
    omega
  · exact isCut_word (haccess ▸ hform.access w hw) (by simp [hplace])
  · simp [hplace]

/-- The source can be divided on both sides of the signature of a method. -/
theorem exists_cuts_of_signature {signatureEnd : Nat}
    (hmem : (o, p) ∈ (Member.methodForm language).within (Masked.ofSource source).skeleton d.body)
    (hend : Method.signatureEnd? (Masked.ofSource source).skeleton d.body.stop
      (o + byteLength p.text - 1) = some signatureEnd) :
    ∃ before lead clauses remaining, o + byteLength p.access = byteLength before ∧
      signatureEnd = byteLength (before ++ (lead ++ ')' :: clauses)) ∧
      IsCut source before ((lead ++ ')' :: clauses) ++ remaining) ∧
      IsCut source (before ++ (lead ++ ')' :: clauses)) remaining ∧
      ∀ c ∈ clauses, c ≠ ';' ∧ c ≠ '{' := by
  obtain ⟨before, lead, rest, hskeleton, haccess, hopening, hstart, body, after, hbody, hstop,
    hcut⟩ := exists_parts_of_method hfind hmem
  rw [hopening] at hend
  obtain ⟨inner, clauses, remaining, hinner, hsize, hmarks, hbefore, hremaining⟩ :=
    Method.signatureEnd?_eq_some hskeleton hend
  have hparts : (Masked.ofSource source).skeleton =
      ((before ++ lead) ++ (inner ++ [')']) ++ clauses) ++ remaining := by
    rw [hskeleton, hinner]
    simp
  have hclosed : IsCut source ((before ++ lead) ++ (inner ++ [')'])) (clauses ++ remaining) := by
    rw [← List.append_assoc]
    exact isCut_after (by simp [hparts]) (by decide)
  have hcuts := isCut_clauses hparts hbody hstop hcut hclosed hbefore hremaining
  refine ⟨before, lead ++ inner, clauses, remaining, haccess, ?_, ?_, ?_, hmarks⟩
  · simpa using hsize
  · rw [hinner] at hstart
    simpa using hstart
  · simpa using hcuts

/-- A method shows a stretch in which a closing parenthesis is program text, and behind it neither
a brace nor a semicolon is. -/
theorem exists_shown_of_method {m : Method}
    (hm : m ∈ Method.declared language (.ofSource source) d.body) :
    ∃ before after, before ++ (')', Layer.program) :: after <:+: layers source ∧
      m.signature.toList =
        normalizeBlanks ((before ++ (')', .program) :: after).flatMap inCode) ∧
      ∀ c ∈ [';', '{'], (c, .program) ∉ after := by
  obtain ⟨o, p, signatureEnd, hmem, hend, rfl⟩ := Member.exists_signatureEnd_of_mem_declared hm
  obtain ⟨front, lead, clauses, remaining, haccess, rfl, hstart, hstop, hmarks⟩ :=
    exists_cuts_of_signature hfind hmem hend
  obtain ⟨shown, hinfix, hshown, hslice⟩ := hstart.exists_stretch hstop
  obtain ⟨before, after, rfl, _, rfl⟩ := exists_program_of_flatMap hshown (by decide)
  refine ⟨before, after, hinfix, ?_, fun c hc hprogram => ?_⟩
  · rw [String.toList_ofList, haccess, hslice]
  · have hmark := hmarks c (mem_skeleton_of_program hprogram)
    rcases List.mem_pair.mp hc with rfl | rfl
    · exact hmark.1 rfl
    · exact hmark.2 rfl

end Body

/-- The type and the name of a declaration, as a row shows them. -/
theorem isClean_typed {form : Member.Form} {ends : List Char} (hform : form.Breaks ends)
    {cs : List Char} {p : Member.Phrase} (h : form.recognize cs = some p) :
    IsClean (String.ofList (normalizeBlanks p.type) ++ " " ++ String.ofList p.name).toList := by
  obtain ⟨_, _, _, _, _, _, _, htype, _⟩ := Member.Form.recognize_eq_some h
  have hname := Member.Form.isIdentifier_name h
  simp only [String.toList_append, String.toList_ofList]
  refine ⟨?_, getLast?_append_isIdentifier hname _⟩
  exact ((unbroken_normalizeBlanks (hform.types htype).2.1).append
    (unbroken_of_forall_isBlank (by decide))).append
    (unbroken_of_isWord hname.isWord)

/-! ## The rows of a record -/

/-- How a record shows a field. -/
def ExtractionMode.shownField : ExtractionMode → Field → String
  | nameOnly, f => f.type ++ " " ++ f.name
  | fullSignature, f => (Signature.ofField f).marked

/-- Every attribute of a record is declared in the body of the class, as a field or, in a full
record, as a property. -/
theorem exists_field_or_property_of_mem_attributes {mode : ExtractionMode} {language : Language}
    {source : List Char} {row : String} (h : row ∈ (extract mode language source).attributes) :
    ∃ d, Declaration.find? language (Masked.ofSource source).skeleton = some d ∧
      ((∃ f ∈ Field.declared language (.ofSource source) d.body, row = mode.shownField f) ∨
        mode = .fullSignature ∧
          ∃ q ∈ Property.declared language (Masked.ofSource source).skeleton d.body,
            row = (Signature.ofProperty q).marked) := by
  rw [extract, Extraction.ofMasked] at h
  split at h
  next => exact absurd h List.not_mem_nil
  next d hfind =>
    refine ⟨d, hfind, ?_⟩
    cases mode with
    | nameOnly =>
        obtain ⟨f, hf, rfl⟩ := List.mem_map.mp h
        exact .inl ⟨f, hf, rfl⟩
    | fullSignature =>
        obtain ⟨signature, hsignature, rfl⟩ := List.mem_map.mp h
        have hattribute := Signature.firstOfEachName_subset _ _ hsignature
        cases language with
        | java =>
            obtain ⟨f, hf, rfl⟩ := List.mem_map.mp hattribute
            exact .inl ⟨f, hf, rfl⟩
        | csharp =>
            rcases List.mem_append.mp (List.mem_mergeSort.mp hattribute) with hfield | hproperty
            · obtain ⟨f, hf, rfl⟩ := List.mem_map.mp hfield
              exact .inl ⟨f, hf, rfl⟩
            · obtain ⟨q, hq, rfl⟩ := List.mem_map.mp hproperty
              exact .inr ⟨rfl, q, hq, rfl⟩

theorem endsArguments_marker (v : Visibility) : endsArguments v.marker = false := by
  cases v <;> decide

theorem Signature.toList_marked (s : Signature) :
    s.marked.toList = s.visibility.marker :: s.text.toList := by
  simp [marked]

/-- A row is a visibility marker and what a stretch of the source shows. -/
structure Shows (source : List Char) (row : String) (shown : List (Char × Layer)) : Prop where
  part : shown <:+: layers source
  text : ∃ v : Visibility, row.toList = v.marker :: normalizeBlanks (shown.flatMap inCode)

/-- No row of a record ends with a semicolon or an opening brace, and no attribute has a breaking
character. -/
structure ClassRecord.IsShaped (record : ClassRecord) : Prop where
  attributes : ∀ row ∈ record.attributes, Unbroken row.toList
  ends : ∀ row ∈ record.attributes ++ record.methods, ∀ c ∈ [';', '{'],
    row.toList.getLast? ≠ some c

variable {language : Language} {source : List Char}

theorem isClean_of_nameOnly {row : String}
    (h : row ∈ (extract .nameOnly language source).attributes) : IsClean row.toList := by
  obtain ⟨d, _, ⟨f, hf, rfl⟩ | ⟨hmode, _⟩⟩ := exists_field_or_property_of_mem_attributes h
  · obtain ⟨⟨o, p⟩, hmem, rfl⟩ := List.mem_map.mp hf
    obtain ⟨_, _, _, _, hread⟩ := Member.Form.mem_within hmem
    exact isClean_typed (Member.fieldForm_breaks language) hread
  · exact absurd hmode (by decide)

theorem getLast?_of_nameOnly {row : String}
    (h : row ∈ (extract .nameOnly language source).methods) : row.toList.getLast? = some ')' := by
  obtain ⟨_, _, m, _, rfl⟩ := exists_method_of_mem_methods h
  simp [ExtractionMode.shown]

/-- An attribute of a full record ends with a word. It breaks nowhere, or it shows a stretch of the
source, with the breaking characters of its literals and no others. -/
theorem shows_of_fullSignature {row : String}
    (h : row ∈ (extract .fullSignature language source).attributes) :
    IsClean row.toList ∨ ∃ shown, Shows source row shown ∧
      (∃ c ∈ row.toList.getLast?, isWord c = true) ∧
      ∀ c, endsArguments c = true → (c ∈ row.toList ↔ (c, .literal) ∈ shown) := by
  obtain ⟨d, hfind, ⟨f, hf, rfl⟩ | ⟨_, q, hq, rfl⟩⟩ :=
    exists_field_or_property_of_mem_attributes h
  · obtain ⟨shown, hpart, hunbroken, htext, e, he, hword⟩ := exists_shown_of_field hfind hf
    have hrow : (ExtractionMode.fullSignature.shownField f).toList =
        f.visibility.marker :: f.signature.toList := Signature.toList_marked _
    refine .inr ⟨shown, ⟨hpart, f.visibility, by rw [hrow, htext]⟩, ⟨e, ?_, hword⟩,
      fun c hc => ?_⟩
    · rw [hrow, List.getLast?_cons, Option.mem_def.mp he]
      rfl
    · rw [hrow, List.mem_cons, htext, mem_shown_iff hunbroken hc, or_iff_right]
      rintro rfl
      rw [endsArguments_marker] at hc
      exact Bool.false_ne_true hc
  · obtain ⟨⟨o, p⟩, hmem, rfl⟩ := List.mem_map.mp hq
    obtain ⟨_, _, _, _, hread⟩ := Member.Form.mem_within hmem
    rw [Signature.toList_marked]
    exact .inl ((isClean_typed (Member.propertyForm_breaks language) hread).cons
      (endsArguments_marker _))

/-- A method of a full record ends with a semicolon or an opening brace exactly if the stretch that
it shows ends so in a literal. -/
theorem method_shows_of_fullSignature {row : String}
    (h : row ∈ (extract .fullSignature language source).methods) :
    ∃ shown, Shows source row shown ∧
      ∀ c ∈ [';', '{'], row.toList.getLast? = some c ↔ EndsInLiteral shown c := by
  obtain ⟨d, hfind, m, hm, rfl⟩ := exists_method_of_mem_methods h
  obtain ⟨before, after, hpart, htext, hmarks⟩ := exists_shown_of_method hfind hm
  have hrow : (ExtractionMode.fullSignature.shown m).toList =
      m.visibility.marker :: m.signature.toList := Signature.toList_marked (.ofMethod m)
  refine ⟨_, ⟨hpart, m.visibility, by rw [hrow, htext]⟩, fun c hc => ?_⟩
  have hblank : isBlank c = false ∧ c ≠ ')' ∧ c ≠ m.visibility.marker := by
    rcases List.mem_pair.mp hc with rfl | rfl <;>
      exact ⟨by decide, by decide, by cases m.visibility <;> decide⟩
  rw [← getLast?_shown_iff (by decide) hblank.1 hblank.2.1 (hmarks c hc), ← htext, hrow,
    List.getLast?_cons]
  cases m.signature.toList.getLast? with
  | none => simpa using hblank.2.2.symm
  | some d => simp

/-- The shape of the members of a record. In name-only mode an attribute ends with a word and breaks
nowhere, and a method ends with a parenthesis. In a full record an attribute ends with a word, and
its breaking characters are those of the literals in the stretch that it shows. A method ends with a
semicolon or an opening brace exactly if the stretch that it shows ends so in a literal. So a source
without breaking characters in its literals has records of the proper shape only. -/
theorem members_extract_shape (language : Language) (source : List Char) :
    ((∀ row ∈ (extract .nameOnly language source).attributes, IsClean row.toList) ∧
      ∀ row ∈ (extract .nameOnly language source).methods, row.toList.getLast? = some ')') ∧
    ((∀ row ∈ (extract .fullSignature language source).attributes, IsClean row.toList ∨
        ∃ shown, Shows source row shown ∧ (∃ c ∈ row.toList.getLast?, isWord c = true) ∧
          ∀ c, endsArguments c = true → (c ∈ row.toList ↔ (c, .literal) ∈ shown)) ∧
      ∀ row ∈ (extract .fullSignature language source).methods, ∃ shown,
        Shows source row shown ∧
          ∀ c ∈ [';', '{'], row.toList.getLast? = some c ↔ EndsInLiteral shown c) ∧
    (extract .nameOnly language source).IsShaped ∧
    ((∀ c, endsArguments c = true → (c, .literal) ∉ layers source) →
      (extract .fullSignature language source).IsShaped) := by
  have hword : ∀ {row : String} {c : Char}, c ∈ [';', '{'] →
      (∃ d ∈ row.toList.getLast?, isWord d = true) → row.toList.getLast? ≠ some c := by
    rintro row c hc ⟨d, hd, hd'⟩ hlast
    obtain rfl := Option.some.inj (hlast.symm.trans hd)
    revert hd'
    rcases List.mem_pair.mp hc with rfl | rfl <;> decide +kernel
  refine ⟨⟨fun _ => isClean_of_nameOnly, fun _ => getLast?_of_nameOnly⟩,
    ⟨fun _ => shows_of_fullSignature, fun _ => method_shows_of_fullSignature⟩, ?_, fun hnone => ?_⟩
  · refine ⟨fun _ h => (isClean_of_nameOnly h).unbroken, fun row h c hc hlast => ?_⟩
    rcases List.mem_append.mp h with h | h
    · exact hword hc (isClean_of_nameOnly h).last hlast
    · obtain rfl : ')' = c := Option.some.inj ((getLast?_of_nameOnly h).symm.trans hlast)
      exact absurd hc (by decide)
  · refine ⟨fun row h c hc => ?_, fun row h c hc hlast => ?_⟩
    · rcases shows_of_fullSignature h with hclean | ⟨shown, hshows, _, hmem⟩
      · exact hclean.unbroken c hc
      · rw [Bool.eq_false_iff]
        intro hbreaks
        exact hnone c hbreaks (hshows.part.subset ((hmem c hbreaks).mp hc))
    · rcases List.mem_append.mp h with h | h
      · rcases shows_of_fullSignature h with hclean | ⟨_, _, hlastWord, _⟩
        · exact hword hc hclean.last hlast
        · exact hword hc hlastWord hlast
      · obtain ⟨shown, hshows, hends⟩ := method_shows_of_fullSignature h
        obtain ⟨before, after, rfl, _⟩ := (hends c hc).mp hlast
        have hbreaks : endsArguments c = true := by
          rcases List.mem_pair.mp hc with rfl | rfl <;> decide
        exact hnone c hbreaks (hshows.part.subset (by simp))

/-- A class with a literal that is left open behind a parameter list, and one in the type of a
field. -/
def openLiteral : List Char :=
  "class A \x7b private List<\"(\"> x; public void f() \";\n\x7b \x7d \x7d".toList

theorem members_extract_shape_openLiteral :
    extract .fullSignature .java openLiteral = ⟨"A", ["-List<\"(\"> x"], ["+void f() \";"]⟩ ∧
      extract .nameOnly .java openLiteral = ⟨"A", ["List<\" \"> x"], ["f()"]⟩ ∧
      ¬ (extract .fullSignature .java openLiteral).IsShaped := by
  have hrecord : extract .fullSignature .java openLiteral =
      ⟨"A", ["-List<\"(\"> x"], ["+void f() \";"]⟩ := by decide +kernel
  refine ⟨hrecord, by decide +kernel, fun hshaped => ?_⟩
  rw [hrecord] at hshaped
  exact hshaped.ends "+void f() \";" (by simp) ';' (by simp) (by decide +kernel)

end ClassDiagram
