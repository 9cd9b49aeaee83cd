import ClassDiagram.Extraction
import ClassDiagram.Proofs.Declaration.Closed
import ClassDiagram.Proofs.Member.Place
import ClassDiagram.Proofs.Source.Program

/-!
# What follows a class

The name and the attributes of a class depend on its own text only, up to the brace that closes
its body. So do its methods, as long as every parameter list that opens in the body closes there:
the search for the end of a parameter list does not stop at the end of the body.
-/

namespace ClassDiagram

open Text Source

/-! ## Signatures of methods -/

namespace Method

/-- The clauses of a method end in the body, whatever follows it. -/
theorem clausesEnd_append_of_stop {stop offset : Nat} {cs rest : List Char}
    (hstop : stop = offset + byteLength cs) (hrest : ∀ c ∈ rest.head?, c ≠ '>') :
    clausesEnd stop offset (cs ++ rest) = clausesEnd stop offset cs ∧
      clausesEnd stop offset cs ≤ stop := by
  induction cs generalizing offset with
  | nil =>
      obtain rfl : stop = offset := hstop
      refine ⟨?_, Nat.le_refl _⟩
      cases rest with
      | nil => rfl
      | cons c rest => simp [clausesEnd]
  | cons c cs ih =>
      rw [byteLength_cons] at hstop
      have hhead : (cs ++ rest).head? = some '>' ↔ cs.head? = some '>' := by
        cases cs with
        | nil => simpa using fun h => hrest '>' h rfl
        | cons d cs => rfl
      have harrow : decide ((cs ++ rest).head? = some '>') = decide (cs.head? = some '>') :=
        decide_eq_decide.mpr hhead
      rw [List.cons_append, clausesEnd, clausesEnd, harrow]
      split
      next => exact ⟨rfl, by omega⟩
      next => exact ih (by omega)

/-- A parameter list that closes in a text closes there whatever follows, and so do the clauses
after it. -/
theorem signatureEnd?_append_of_some {a b rest : List Char} {stop : Nat}
    (h : signatureEnd? (a ++ b) (byteLength (a ++ b)) (byteLength a) = some stop)
    (hrest : ∀ c ∈ rest.head?, c ≠ '>') :
    signatureEnd? (a ++ b ++ rest) (byteLength (a ++ b)) (byteLength a) = some stop ∧
      stop ≤ byteLength (a ++ b) := by
  rw [signatureEnd?, dropBytes_append, Option.bind_eq_bind, Option.bind_eq_some_iff] at h
  obtain ⟨close, hclose, hstop⟩ := h
  obtain rfl := Option.some.inj hstop
  obtain ⟨inner, clauses, rfl, rfl, hpartner⟩ := closingFrom_eq_some hclose
  have hmark : ')'.utf8Size = 1 := by decide
  have hsize : byteLength a + byteLength inner + 1 = byteLength (a ++ (inner ++ [')'])) := by
    simp only [byteLength_append, byteLength_cons, byteLength_nil, hmark, Nat.add_assoc]
  have hsource : ∀ z, a ++ (inner ++ ')' :: z) = a ++ (inner ++ [')']) ++ z := by
    intro z
    simp
  have hdrop : ∀ z, dropBytes (byteLength a + byteLength inner + 1) (a ++ (inner ++ ')' :: z)) =
      z := by
    intro z
    rw [hsource, hsize, dropBytes_append]
  have hstop : byteLength (a ++ (inner ++ ')' :: clauses)) =
      byteLength a + byteLength inner + 1 + byteLength clauses := by
    rw [hsource, byteLength_append, hsize]
  have hfurther : a ++ (inner ++ ')' :: clauses) ++ rest =
      a ++ (inner ++ ')' :: (clauses ++ rest)) := by simp
  obtain ⟨hend, hle⟩ := clausesEnd_append_of_stop hstop hrest
  rw [hdrop]
  refine ⟨?_, hle⟩
  rw [signatureEnd?, hfurther, dropBytes_append, partner?, hpartner, Option.bind_eq_bind,
    Option.bind_some, hdrop, hend]

/-- A parameter list that closes in no place of a text is not closed by the brace after it. -/
theorem signatureEnd?_brace_eq_none {a b : List Char} {stop : Nat}
    (h : signatureEnd? (a ++ b) stop (byteLength a) = none) :
    signatureEnd? (a ++ b ++ ['}']) stop (byteLength a) = none := by
  by_contra hsome
  obtain ⟨e, he⟩ := Option.ne_none_iff_exists'.mp hsome
  rw [List.append_assoc, signatureEnd?, dropBytes_append, Option.bind_eq_bind,
    Option.bind_eq_some_iff] at he
  obtain ⟨close, hclose, _⟩ := he
  obtain ⟨inner, clauses, hparts, _, hpartner⟩ := closingFrom_eq_some hclose
  -- The last character is a brace, so the parenthesis stands in `b`.
  obtain ⟨between, rfl⟩ : ∃ between, b = inner ++ ')' :: between := by
    rcases List.append_eq_append_iff.mp hparts with
      ⟨between, hinner, hbrace⟩ | ⟨between, hb, hparts⟩
    · cases between with
      | nil => exact absurd (List.cons.inj hbrace).1 (by decide)
      | cons c between => exact absurd (congrArg List.length hbrace) (by simp)
    · cases between with
      | nil => exact absurd (List.cons.inj hparts).1 (by decide)
      | cons c between =>
          obtain ⟨rfl, _⟩ := List.cons.inj hparts
          exact ⟨between, hb⟩
  rw [signatureEnd?, dropBytes_append, partner?, hpartner] at h
  exact absurd h (by simp)

/-- Enough closing parentheses close every parameter list. -/
theorem isSome_signatureEnd? {a b : List Char} (stop : Nat) {k : Nat} (hk : b.length ≤ k) :
    (signatureEnd? (a ++ (b ++ List.replicate (k + 1) ')')) stop (byteLength a)).isSome = true := by
  have hclose : (closingFrom Char.utf8Size '(' ')' 0 (byteLength a)
      (b ++ List.replicate (k + 1) ')')).isSome = true :=
    isSome_closingFrom_append (by decide) _ (by omega)
  obtain ⟨close, hclose⟩ := Option.isSome_iff_exists.mp hclose
  rw [signatureEnd?, dropBytes_append, partner?, hclose]
  rfl

end Method

/-! ## Declarations in a body -/

section Body

variable {language : Language} {front before body : List Char}
  (hfront : (Masked.ofSource front).skeleton = before ++ body)

include hfront

theorem byteLength_before_body : byteLength (before ++ body) = byteLength front :=
  hfront ▸ (byteLength_ofSource front).2

theorem slice_body (rest : List Char) :
    slice ((Masked.ofSource front).skeleton ++ rest) ⟨byteLength before, byteLength front⟩ =
      body := by
  rw [hfront, List.append_assoc, ← byteLength_before_body hfront, byteLength_append]
  exact slice_append before body rest

theorem within_append (form : Member.Form) (rest : List Char) :
    form.within ((Masked.ofSource front).skeleton ++ rest)
        ⟨byteLength before, byteLength front⟩ =
      form.within (Masked.ofSource front).skeleton ⟨byteLength before, byteLength front⟩ := by
  have hbody := slice_body hfront []
  rw [List.append_nil] at hbody
  rw [Member.Form.within, Member.Form.within, slice_body hfront rest, hbody]

/-- Where a declaration of a body stands in the skeleton. -/
theorem exists_split_of_within {form : Member.Form} {o : Nat} {p : Member.Phrase}
    (hmem : (o, p) ∈ form.within (Masked.ofSource front).skeleton
      ⟨byteLength before, byteLength front⟩) :
    ∃ between back, (Masked.ofSource front).skeleton = before ++ between ++ back ∧
      o = byteLength (before ++ between) ∧ form.recognize back = some p := by
  obtain ⟨between, back, hslice, ho, hread⟩ := Member.Form.mem_within hmem
  have hbody := slice_body hfront []
  rw [List.append_nil, hslice] at hbody
  refine ⟨between, back, ?_, by rw [ho, byteLength_append], hread⟩
  rw [hfront, ← hbody, List.append_assoc]

/-- A signature that starts after the access keyword of a declaration and ends in the body is cut
from the body, whatever follows. -/
theorem slice_code_append {form : Member.Form} {ends : List Char} (hform : form.Breaks ends)
    {o : Nat} {p : Member.Phrase}
    (hmem : (o, p) ∈ form.within (Masked.ofSource front).skeleton
      ⟨byteLength before, byteLength front⟩)
    {stop : Nat} (hstop : stop ≤ byteLength front) (rest : List Char) :
    slice ((Masked.ofSource front).code ++ rest) ⟨o + byteLength p.access, stop⟩ =
      slice (Masked.ofSource front).code ⟨o + byteLength p.access, stop⟩ := by
  obtain ⟨between, back, hskeleton, rfl, hread⟩ := exists_split_of_within hfront hmem
  obtain ⟨afterAccess, _, _, _, _, haccess, _⟩ := Member.Form.recognize_eq_some hread
  obtain ⟨w, hw, hwaccess, rfl⟩ := Reader.word_eq_some haccess
  have hident := hform.access w hw
  rw [← hwaccess] at hident
  -- The last character of the keyword is program text, so its end is an offset of the code too.
  obtain ⟨init, c, hinit⟩ : ∃ init c, p.access = init ++ [c] :=
    ⟨_, _, (List.dropLast_append_getLast hident.ne_nil).symm⟩
  have hblank : isBlank c = false := by
    apply isBlank_of_isWord
    apply IsIdentifier.isWord hident
    rw [hinit]
    exact List.mem_append_right _ (List.mem_singleton_self c)
  have hsplit : (Masked.ofSource front).skeleton =
      (before ++ between ++ init) ++ c :: afterAccess := by
    rw [hskeleton, hinit]
    simp
  obtain ⟨a', b', hcode, hsize⟩ := exists_code_of_skeleton hsplit hblank
  have hparts : (Masked.ofSource front).code = (a' ++ [c]) ++ b' := by
    rw [hcode]
    simp
  have hstart : byteLength (before ++ between) + byteLength p.access = byteLength (a' ++ [c]) := by
    rw [hinit, byteLength_append a', hsize]
    simp only [byteLength_append, Nat.add_assoc]
  rw [← (byteLength_ofSource front).1, hparts] at hstop
  rw [hparts]
  exact slice_append_of_le hstart hstop rest

/-- The name of a declaration of a body ends in the body. -/
theorem declarator_le {form : Member.Form} {ends : List Char} (hform : form.Breaks ends)
    {o : Nat} {p : Member.Phrase}
    (hmem : (o, p) ∈ form.within (Masked.ofSource front).skeleton
      ⟨byteLength before, byteLength front⟩) :
    byteLength before ≤ o ∧
      o + byteLength p.access + byteLength p.declarator ≤ byteLength front := by
  obtain ⟨between, back, hskeleton, rfl, hread⟩ := exists_split_of_within hfront hmem
  obtain ⟨afterName, rfl, _⟩ := hform.exists_afterName hread
  rw [← (byteLength_ofSource front).2, hskeleton]
  simp only [byteLength_append]
  omega

/-! ## Attributes -/

theorem declared_fields_append (tail : Masked) :
    Field.declared language (Masked.ofSource front ++ tail) ⟨byteLength before, byteLength front⟩ =
      Field.declared language (.ofSource front) ⟨byteLength before, byteLength front⟩ := by
  rw [Field.declared, Field.declared, Masked.skeleton_append, within_append hfront]
  apply List.map_congr_left
  rintro ⟨o, p⟩ hmem
  have hform := Member.fieldForm_breaks language
  have hslice := slice_code_append hfront hform hmem (declarator_le hfront hform hmem).2 tail.code
  simp only [Field.ofPhrase, Masked.code_append, hslice]

theorem declared_properties_append (tail : Masked) :
    Property.declared language (Masked.ofSource front ++ tail).skeleton
        ⟨byteLength before, byteLength front⟩ =
      Property.declared language (Masked.ofSource front).skeleton
        ⟨byteLength before, byteLength front⟩ := by
  rw [Property.declared, Property.declared, Masked.skeleton_append, within_append hfront]

theorem attributes_append (tail : Masked) :
    Extraction.attributes language (Masked.ofSource front ++ tail)
        ⟨byteLength before, byteLength front⟩ =
      Extraction.attributes language (.ofSource front) ⟨byteLength before, byteLength front⟩ := by
  unfold Extraction.attributes
  rw [declared_fields_append hfront, declared_properties_append hfront]

/-! ## Methods -/

/-- The declarations of the methods are the same whatever follows the body. -/
theorem declared_methods_append (tail : Masked) :
    Method.declared language (Masked.ofSource front ++ tail)
        ⟨byteLength before, byteLength front⟩ =
      ((Member.methodForm language).within (Masked.ofSource front).skeleton
        ⟨byteLength before, byteLength front⟩).filterMap fun (o, p) =>
          Method.ofPhrase? (Masked.ofSource front ++ tail) (byteLength front) o p := by
  rw [Method.declared, Masked.skeleton_append, within_append hfront]

theorem exists_parenthesis {o : Nat} {p : Member.Phrase}
    (hmem : (o, p) ∈ (Member.methodForm language).within (Masked.ofSource front).skeleton
      ⟨byteLength before, byteLength front⟩) :
    ∃ a b, (Masked.ofSource front).skeleton = a ++ b ∧
      o + byteLength p.text - 1 = byteLength a := by
  obtain ⟨between, back, hskeleton, rfl, hread⟩ := exists_split_of_within hfront hmem
  obtain ⟨text, rest, htext, rfl⟩ := Member.exists_rest_of_method hread
  have hmark : '('.utf8Size = 1 := by decide
  refine ⟨before ++ between ++ text, '(' :: rest, ?_, ?_⟩
  · rw [hskeleton, htext]
    simp
  · rw [htext]
    simp only [byteLength_append, byteLength_cons, byteLength_nil, hmark]
    omega

/-- A method whose parameter list closes in the body is the same whatever follows, and its
signature ends in the body. -/
theorem method_append_of_some {o : Nat} {p : Member.Phrase} {m : Method} {tail : Masked}
    (hmem : (o, p) ∈ (Member.methodForm language).within (Masked.ofSource front).skeleton
      ⟨byteLength before, byteLength front⟩)
    (htail : ∀ c ∈ tail.skeleton.head?, c ≠ '>')
    (h : Method.ofPhrase? (.ofSource front) (byteLength front) o p = some m) :
    Method.ofPhrase? (Masked.ofSource front ++ tail) (byteLength front) o p = some m ∧
      ∃ stop ≤ byteLength front, m.signature = String.ofList (normalizeBlanks
        (slice (Masked.ofSource front ++ tail).code ⟨o + byteLength p.access, stop⟩)) := by
  obtain ⟨a, b, hskeleton, hopening⟩ := exists_parenthesis hfront hmem
  rw [Method.ofPhrase?, Option.bind_eq_bind, Option.bind_eq_some_iff] at h
  obtain ⟨stop, hstop, hmethod⟩ := h
  have hsize : byteLength front = byteLength (a ++ b) := by
    rw [← hskeleton, (byteLength_ofSource front).2]
  rw [hskeleton, hopening, hsize] at hstop
  obtain ⟨hend, hle⟩ := Method.signatureEnd?_append_of_some hstop htail
  have hslice := slice_code_append hfront (Member.methodForm_breaks language) hmem
    (hsize ▸ hle) tail.code
  refine ⟨?_, stop, hsize ▸ hle, ?_⟩
  · rw [Method.ofPhrase?, Masked.skeleton_append, hskeleton, hopening, hsize, hend,
      Masked.code_append, Option.bind_eq_bind, Option.bind_some, hslice]
    exact hmethod
  · rw [Masked.code_append, hslice, ← Option.some.inj hmethod]

/-- A method whose parameter list does not close in the body is none, if only the closing brace
follows. -/
theorem method_brace_eq_none {o : Nat} {p : Member.Phrase}
    (hmem : (o, p) ∈ (Member.methodForm language).within (Masked.ofSource front).skeleton
      ⟨byteLength before, byteLength front⟩) {tail : Masked} (htail : tail.skeleton = ['}'])
    (h : Method.ofPhrase? (.ofSource front) (byteLength front) o p = none) :
    Method.ofPhrase? (Masked.ofSource front ++ tail) (byteLength front) o p = none := by
  obtain ⟨a, b, hskeleton, hopening⟩ := exists_parenthesis hfront hmem
  have hnone : Method.signatureEnd? (a ++ b) (byteLength front) (byteLength a) = none := by
    rw [← hskeleton, ← hopening]
    by_contra hsome
    obtain ⟨stop, hstop⟩ := Option.ne_none_iff_exists'.mp hsome
    rw [Method.ofPhrase?, hstop] at h
    exact absurd h (by simp)
  rw [Method.ofPhrase?, Masked.skeleton_append, htail, hskeleton, hopening,
    Method.signatureEnd?_brace_eq_none hnone]
  rfl

/-- What is a method in the text of the class alone is one in its body alone. -/
theorem method_of_brace {o : Nat} {p : Member.Phrase} {m : Method}
    (hmem : (o, p) ∈ (Member.methodForm language).within (Masked.ofSource front).skeleton
      ⟨byteLength before, byteLength front⟩) {tail : Masked} (htail : tail.skeleton = ['}'])
    (h : Method.ofPhrase? (Masked.ofSource front ++ tail) (byteLength front) o p = some m) :
    Method.ofPhrase? (.ofSource front) (byteLength front) o p = some m := by
  cases hown : Method.ofPhrase? (.ofSource front) (byteLength front) o p with
  | none =>
      rw [method_brace_eq_none hfront hmem htail hown] at h
      exact absurd h (by simp)
  | some own =>
      have hhead : ∀ c ∈ tail.skeleton.head?, c ≠ '>' := by
        rw [htail]
        exact forall_mem_head_cons (by decide) []
      rw [← h, (method_append_of_some hfront hmem hhead hown).1]

/-- With enough closing parentheses behind the body every declaration is a method. -/
theorem isSome_method {o : Nat} {p : Member.Phrase} {tail : Masked} {k : Nat}
    (hmem : (o, p) ∈ (Member.methodForm language).within (Masked.ofSource front).skeleton
      ⟨byteLength before, byteLength front⟩)
    (htail : tail.skeleton = '}' :: List.replicate (k + 1) ')')
    (hk : (Masked.ofSource front).skeleton.length + 1 ≤ k) :
    (Method.ofPhrase? (Masked.ofSource front ++ tail) (byteLength front) o p).isSome = true := by
  obtain ⟨a, b, hskeleton, hopening⟩ := exists_parenthesis hfront hmem
  have hlength : (b ++ ['}']).length ≤ k := by
    rw [hskeleton, List.length_append] at hk
    rw [List.length_append, List.length_singleton]
    omega
  have hend := Method.isSome_signatureEnd? (a := a) (byteLength front) hlength
  obtain ⟨stop, hstop⟩ := Option.isSome_iff_exists.mp hend
  have hparts : a ++ b ++ '}' :: List.replicate (k + 1) ')' =
      a ++ (b ++ ['}'] ++ List.replicate (k + 1) ')') := by simp
  rw [Method.ofPhrase?, Masked.skeleton_append, htail, hskeleton, hopening, hparts, hstop]
  rfl

end Body

/-! ## The record of a class with a closed body -/

/-- Every parameter list that opens in the body of the first declaration is closed. -/
def ParametersClose (language : Language) (source : Masked) : Prop :=
  ∀ d, Declaration.find? language source.skeleton = some d →
    ∀ o p, (o, p) ∈ (Member.methodForm language).within source.skeleton d.body →
      (Method.ofPhrase? source d.body.stop o p).isSome = true

/-- A text that is cut from within a stretch of a source. -/
def IsCutFrom (source : Masked) (range : Span) (text : String) : Prop :=
  ∃ start stop, range.start ≤ start ∧ stop ≤ range.stop ∧
    text = String.ofList (normalizeBlanks (slice source.code ⟨start, stop⟩))

/-- Every signature of a field or a method is cut from within the body. -/
def SignaturesWithin (language : Language) (source : Masked) : Prop :=
  ∀ d, Declaration.find? language source.skeleton = some d →
    (∀ f ∈ Field.declared language source d.body, IsCutFrom source d.body f.signature) ∧
      ∀ m ∈ Method.declared language source d.body, IsCutFrom source d.body m.signature

attribute [ext] ClassRecord

section Closed

variable {language : Language} {front after : List Char}
  (hclosed : Declaration.closing? language (Masked.ofSource (front ++ '}' :: after)).skeleton =
    some (byteLength front))

include hclosed

/-- In front of the closing brace a source is masked by itself, and its declaration is found
whatever follows the brace. -/
theorem exists_closed_body : ∃ d before body,
    (Masked.ofSource front).skeleton = before ++ body ∧
      d.body = ⟨byteLength before, byteLength front⟩ ∧
      (∀ t, Masked.ofSource (front ++ '}' :: t) =
        Masked.ofSource front ++ (.plain ['}'] ++ Masked.ofSource t)) ∧
      ∀ t, Declaration.find? language (Masked.ofSource (front ++ '}' :: t)).skeleton = some d := by
  obtain ⟨d, before, body, rest, hskeleton, hsize, hbody, hfind⟩ :=
    Declaration.find?_of_closing? hclosed
  have hfront := isClosed_of_skeleton (by decide) (by decide) hskeleton hsize
  have hmasked := ofSource_append_delimiter hfront (d := '}') (by decide)
  have hparts : (Masked.ofSource front).skeleton = before ++ body := by
    rw [hmasked] at hskeleton
    refine (append_inj_of_byteLength hskeleton ?_).1
    rw [(byteLength_ofSource front).2, hsize]
  refine ⟨d, before, body, hparts, hbody, hmasked, fun t => ?_⟩
  rw [hmasked, Masked.skeleton_append, hparts]
  exact hfind _

theorem extract_append_name_attributes (mode : ExtractionMode) (t : List Char) :
    (extract mode language (front ++ '}' :: t)).name =
        (extract mode language (front ++ ['}'])).name ∧
      (extract mode language (front ++ '}' :: t)).attributes =
        (extract mode language (front ++ ['}'])).attributes := by
  obtain ⟨d, before, body, hfront, hbody, hmasked, hfind⟩ := exists_closed_body hclosed
  rw [extract, extract, Extraction.ofMasked, Extraction.ofMasked, hfind, hfind, hmasked, hmasked]
  cases mode with
  | nameOnly =>
      refine ⟨rfl, ?_⟩
      simp only [Extraction.nameOnly, hbody, declared_fields_append hfront]
  | fullSignature =>
      refine ⟨rfl, ?_⟩
      simp only [Extraction.fullSignature, hbody, attributes_append hfront]

/-- If all parameter lists close, the methods are the same whatever follows. -/
theorem extract_append_of_parametersClose
    (hclose : ParametersClose language (.ofSource (front ++ ['}']))) (mode : ExtractionMode)
    (t : List Char) :
    extract mode language (front ++ '}' :: t) = extract mode language (front ++ ['}']) := by
  obtain ⟨hname, hattributes⟩ := extract_append_name_attributes hclosed mode t
  obtain ⟨d, before, body, hfront, hbody, hmasked, hfind⟩ := exists_closed_body hclosed
  have hmethods : Method.declared language (.ofSource (front ++ '}' :: t)) d.body =
      Method.declared language (.ofSource (front ++ ['}'])) d.body := by
    have hown := hclose d (hfind [])
    rw [hmasked [], hbody, Masked.skeleton_append, within_append hfront] at hown
    rw [hmasked, hmasked [], hbody, declared_methods_append hfront, declared_methods_append hfront]
    apply List.filterMap_congr
    rintro ⟨o, p⟩ hmem
    obtain ⟨m, hm⟩ := Option.isSome_iff_exists.mp (hown o p hmem)
    have hbrace := method_of_brace hfront hmem rfl hm
    exact (method_append_of_some hfront hmem (forall_mem_head_cons (by decide) _) hbrace).1.trans
      hm.symm
  have hrecord : (extract mode language (front ++ '}' :: t)).methods =
      (extract mode language (front ++ ['}'])).methods := by
    rw [extract, extract, Extraction.ofMasked, Extraction.ofMasked, hfind t, hfind []]
    cases mode with
    | nameOnly => exact congrArg (List.map fun m => m.name ++ "()") hmethods
    | fullSignature =>
        exact congrArg (fun ms => (Signature.firstOfEachName [] (ms.map .ofMethod)).map (·.marked))
          hmethods
  exact ClassRecord.ext hname hattributes hrecord

/-- If the text that follows never matters, all parameter lists close. -/
theorem parametersClose_of_extract_append
    (h : ∀ mode t, extract mode language (front ++ '}' :: t) =
      extract mode language (front ++ ['}'])) :
    ParametersClose language (.ofSource (front ++ ['}'])) := by
  obtain ⟨d, before, body, hfront, hbody, hmasked, hfind⟩ := exists_closed_body hclosed
  intro d' hfind' o p hmem
  obtain rfl : d = d' := Option.some.inj ((hfind []).symm.trans hfind')
  -- Closing parentheses behind the class turn every declaration into a method.
  let k := (Masked.ofSource front).skeleton.length + 1
  have hplain : Masked.ofSource (List.replicate (k + 1) ')') =
      .plain (List.replicate (k + 1) ')') := by
    apply ofSource_plain
    · intro c hc
      rw [(List.mem_replicate.mp hc).2]
      decide
    · intro c hc
      rw [(List.mem_replicate.mp (List.mem_of_mem_getLast? hc)).2]
      decide
  have hlength : (Method.declared language
      (.ofSource (front ++ '}' :: List.replicate (k + 1) ')')) d.body).length =
      (Method.declared language (.ofSource (front ++ ['}'])) d.body).length := by
    have hsame := congrArg (·.methods.length) (h .nameOnly (List.replicate (k + 1) ')'))
    rw [extract, extract, Extraction.ofMasked, Extraction.ofMasked, hfind, hfind []] at hsame
    simpa [Extraction.nameOnly] using hsame
  have hskeleton : (Masked.plain ['}'] ++ Masked.plain (List.replicate (k + 1) ')')).skeleton =
      '}' :: List.replicate (k + 1) ')' := rfl
  rw [hmasked, hmasked [], hplain, hbody, declared_methods_append hfront,
    declared_methods_append hfront] at hlength
  rw [hmasked [], hbody, Masked.skeleton_append, within_append hfront] at hmem
  have hall : ∀ entry ∈ (Member.methodForm language).within (Masked.ofSource front).skeleton
      ⟨byteLength before, byteLength front⟩, (Method.ofPhrase? (Masked.ofSource front ++
        (.plain ['}'] ++ .plain (List.replicate (k + 1) ')'))) (byteLength front) entry.1
          entry.2).isSome = true :=
    fun entry hentry => isSome_method hfront hentry hskeleton (Nat.le_refl k)
  have hown := hlength.symm.trans (List.filterMap_length_eq_length.mpr hall)
  rw [hmasked [], hbody]
  exact List.filterMap_length_eq_length.mp hown (o, p) hmem

theorem signaturesWithin : SignaturesWithin language (.ofSource (front ++ ['}'])) := by
  obtain ⟨d, before, body, hfront, hbody, hmasked, hfind⟩ := exists_closed_body hclosed
  intro d' hfind'
  obtain rfl : d = d' := Option.some.inj ((hfind []).symm.trans hfind')
  rw [hmasked [], hbody]
  constructor
  · intro f hf
    obtain ⟨⟨o, p⟩, hmem, rfl⟩ := List.mem_map.mp hf
    rw [Masked.skeleton_append, within_append hfront] at hmem
    have hends := declarator_le hfront (Member.fieldForm_breaks language) hmem
    exact ⟨o + byteLength p.access, _, by dsimp only; omega, hends.2, rfl⟩
  · intro m hm
    rw [declared_methods_append hfront] at hm
    obtain ⟨⟨o, p⟩, hmem, hmethod⟩ := List.mem_filterMap.mp hm
    have hends := declarator_le hfront (Member.methodForm_breaks language) hmem
    have hown := method_of_brace hfront hmem rfl hmethod
    have hhead : ∀ c ∈ (Masked.plain ['}'] ++ Masked.ofSource []).skeleton.head?, c ≠ '>' :=
      forall_mem_head_cons (by decide) _
    obtain ⟨_, stop, hstop, hsignature⟩ := method_append_of_some hfront hmem hhead hown
    exact ⟨o + byteLength p.access, stop, by dsimp only; omega, hstop, hsignature⟩

/-- What follows a class with a closed body: its name and its attributes do not depend on it, its
signatures are cut from the body, and its methods do not depend on it exactly if every parameter
list that opens in the body closes there. -/
theorem extract_append_closed :
    (∀ mode t, (extract mode language (front ++ '}' :: t)).name =
          (extract mode language (front ++ ['}'])).name ∧
        (extract mode language (front ++ '}' :: t)).attributes =
          (extract mode language (front ++ ['}'])).attributes) ∧
      SignaturesWithin language (.ofSource (front ++ ['}'])) ∧
      ((∀ mode t, extract mode language (front ++ '}' :: t) =
          extract mode language (front ++ ['}'])) ↔
        ParametersClose language (.ofSource (front ++ ['}']))) :=
  ⟨extract_append_name_attributes hclosed, signaturesWithin hclosed,
    parametersClose_of_extract_append hclosed, extract_append_of_parametersClose hclosed⟩

end Closed

/-- The text of a class in front of its closing brace, with a method that is closed. -/
def closedMethod : List Char := "class A \x7b public void f(int x) \x7b \x7d ".toList

theorem extract_append_closed_closedMethod :
    Declaration.closing? .java (Masked.ofSource (closedMethod ++ '}' :: " f( )".toList)).skeleton =
        some (byteLength closedMethod) ∧
      ∀ mode t, extract mode .java (closedMethod ++ '}' :: t) =
        extract mode .java (closedMethod ++ ['}']) := by
  have hclosed : Declaration.closing? .java
      (Masked.ofSource (closedMethod ++ '}' :: " f( )".toList)).skeleton =
        some (byteLength closedMethod) := by decide +kernel
  have hfind : Declaration.find? .java (Masked.ofSource (closedMethod ++ ['}'])).skeleton =
      some ⟨"class", "A", ⟨7, 8⟩, ⟨9, 35⟩⟩ := by decide +kernel
  have hmethods : ∀ entry ∈ (Member.methodForm .java).within
      (Masked.ofSource (closedMethod ++ ['}'])).skeleton ⟨9, 35⟩,
      (Method.ofPhrase? (.ofSource (closedMethod ++ ['}'])) 35 entry.1 entry.2).isSome = true := by
    decide +kernel
  obtain ⟨_, _, hiff⟩ := extract_append_closed hclosed
  refine ⟨hclosed, hiff.mpr ?_⟩
  intro d hd o p hmem
  obtain rfl := Option.some.inj (hfind.symm.trans hd)
  exact hmethods (o, p) hmem

/-- The text of a class in front of its closing brace, with a parameter list that is not closed. -/
def openParameters : List Char := "class A \x7b public void f( ".toList

/-- A parenthesis behind a class can close a parameter list of the class. -/
theorem extract_append_openParameters :
    Declaration.closing? .java (Masked.ofSource (openParameters ++ '}' :: " )".toList)).skeleton =
        some (byteLength openParameters) ∧
      extract .fullSignature .java (openParameters ++ ['}']) = ⟨"A", [], []⟩ ∧
      extract .fullSignature .java (openParameters ++ '}' :: " )".toList) =
        ⟨"A", [], ["+void f( \x7d )"]⟩ := by
  refine ⟨by decide +kernel, by decide +kernel, by decide +kernel⟩

end ClassDiagram
