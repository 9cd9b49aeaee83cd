import ClassDiagram.Member.Basic
import ClassDiagram.Proofs.Printed.Class

/-!
# The members that a class declares

The fields, methods and properties found in the body of a class are those that are written there,
in order and with nothing else between them, unless a stretch mentions an access keyword.
-/

namespace ClassDiagram.Printed

open Text Source

variable {language : Language}

/-! ## What a member declares -/

def Declarator.visibility (d : Declarator language) : Visibility :=
  (Visibility.ofKeyword? d.access).getD .default

/-- The type, with single spaces between its words. -/
def Declarator.typeName (d : Declarator language) : String :=
  String.ofList ([' '].intercalate (Text.words d.type.text))

def Declarator.field (d : Declarator language) (offset : Nat) : Field where
  offset := offset
  visibility := d.visibility
  type := d.typeName
  name := String.ofList d.name.text
  signature := String.ofList ([' '].intercalate d.words)

def Declarator.property (d : Declarator language) (offset : Nat) : Property where
  offset := offset
  visibility := d.visibility
  type := d.typeName
  name := String.ofList d.name.text

/-- The method that a declarator declares. Its signature is its text from the modifiers to the
clauses, with single spaces between the words and without comments. -/
def Declarator.method (d : Declarator language) (gap : Blanks) (parameters : Parameters)
    (clauses : Clauses) (offset : Nat) : Method where
  offset := offset
  visibility := d.visibility
  name := String.ofList d.name.text
  signature := String.ofList (normalizeBlanks
    (d.afterAccess ++ (gap.text ++ '(' :: (parameters.code ++ ')' :: clauses.code))))

def Member.field? (m : Member language) (offset : Nat) : Option Field :=
  match m.ending with
  | .field .. => some (m.declarator.field offset)
  | _ => none

def Member.method? (m : Member language) (offset : Nat) : Option Method :=
  match m.ending with
  | .method gap parameters clauses _ => some (m.declarator.method gap parameters clauses offset)
  | _ => none

def Member.property? (m : Member language) (offset : Nat) : Option Property :=
  match m.ending with
  | .property .. => some (m.declarator.property offset)
  | _ => none

/-! ## Where the members stand -/

theorem Stretch.byteLength_code (s : Stretch) : byteLength s.code = byteLength s.skeleton := by
  obtain ⟨hcode, hskeleton⟩ := byteLength_ofSource s.text
  exact hcode.trans hskeleton.symm

theorem Ending.byteLength_code (e : Ending language) :
    byteLength (e.shown Stretch.code) = byteLength (e.shown Stretch.skeleton) := by
  cases e with
  | field gap initializer =>
      cases initializer <;> simp [shown, initialized, Stretch.byteLength_code]
  | method gap parameters clauses body =>
      cases body <;> simp [shown, bodied, Stretch.byteLength_code]
  | property hcsharp accessors initializer =>
      cases initializer <;> simp [shown, appended, Stretch.byteLength_code]

theorem Member.byteLength_code (m : Member language) :
    byteLength (m.shown Stretch.code) = byteLength (m.shown Stretch.skeleton) := by
  simp [shown, Ending.byteLength_code]

theorem byteLength_flatMap_code (ms : List (Member language)) :
    byteLength (ms.flatMap (·.shown Stretch.code)) =
      byteLength (ms.flatMap (·.shown Stretch.skeleton)) := by
  induction ms with
  | nil => rfl
  | cons m ms ih => simp [Member.byteLength_code, ih]

/-- A placed member stands between other members, and its offset measures what stands before it.
-/
theorem mem_placed {offset o : Nat} {ms : List (Member language)} {m : Member language}
    (h : (o, m) ∈ placed offset ms) : ∃ before after, ms = before ++ m :: after ∧
      o = offset + byteLength (before.flatMap (·.shown Stretch.skeleton)) +
        byteLength m.leading.text := by
  induction ms generalizing offset with
  | nil => exact absurd h List.not_mem_nil
  | cons n ms ih =>
      rcases List.mem_cons.mp h with heq | hmem
      · obtain ⟨rfl, rfl⟩ := Prod.mk.inj heq
        exact ⟨[], ms, rfl, by simp⟩
      · obtain ⟨before, after, rfl, rfl⟩ := ih hmem
        refine ⟨n :: before, after, rfl, ?_⟩
        rw [List.flatMap_cons, byteLength_append]
        omega

theorem filterMap_placed {β : Type} {f : Nat × Member language → Option β}
    {g : Member language → Option β} (h : ∀ o m, f (o, m) = g m) (offset : Nat)
    (ms : List (Member language)) : (placed offset ms).filterMap f = ms.filterMap g := by
  induction ms generalizing offset with
  | nil => rfl
  | cons m ms ih => rw [placed, List.filterMap_cons, List.filterMap_cons, h, ih]

/-- Every member starts behind the one before it. -/
theorem pairwise_placed (offset : Nat) (ms : List (Member language)) :
    (placed offset ms).Pairwise (fun a b => a.1 < b.1) ∧ ∀ a ∈ placed offset ms, offset ≤ a.1 := by
  induction ms generalizing offset with
  | nil => exact ⟨.nil, fun a ha => absurd ha List.not_mem_nil⟩
  | cons m ms ih =>
      obtain ⟨hpairwise, hlater⟩ := ih (offset + byteLength (m.shown Stretch.skeleton))
      have hsize : byteLength m.leading.text < byteLength (m.shown Stretch.skeleton) := by
        have hne := (isIdentifier_accessKeywords language _ m.declarator.access_mem).ne_nil
        have hpos := byteLength_pos hne
        simp only [Member.shown, Declarator.text, byteLength_append]
        omega
      refine ⟨List.pairwise_cons.mpr ⟨fun a ha => ?_, hpairwise⟩, fun a ha => ?_⟩
      · have := hlater a ha
        dsimp only
        omega
      · rcases List.mem_cons.mp ha with rfl | ha
        · exact Nat.le_add_right _ _
        · have := hlater a ha
          omega

/-! ## What the phrase of a member gives -/

/-- A field whose declarator is cut from the code shows the words of its declarator. -/
theorem ofPhrase_append (p : Member.Phrase) (a b : List Char) :
    Field.ofPhrase (a ++ (p.access ++ (p.declarator ++ b))) (byteLength a) p =
      ⟨byteLength a, p.visibility, String.ofList (normalizeBlanks p.type), String.ofList p.name,
        String.ofList (normalizeBlanks p.declarator)⟩ := by
  have hslice : slice (a ++ (p.access ++ (p.declarator ++ b))) ⟨byteLength a + byteLength p.access,
      byteLength a + byteLength p.access + byteLength p.declarator⟩ = p.declarator := by
    rw [← List.append_assoc]
    exact slice_append_of_eq (byteLength_append ..).symm (by rw [byteLength_append])
  simp only [Field.ofPhrase, hslice]

namespace Declarator

variable (d : Declarator language)

theorem visibility_phrase (tail : List Char) (initializer : Option (List Char)) :
    (d.phrase tail initializer).visibility = d.visibility := by
  rw [Member.Phrase.visibility, visibility, phrase, String.ofList_toList]

theorem field_ofPhrase (tail : List Char) (initializer : Option (List Char)) (a b : List Char) :
    Field.ofPhrase (a ++ (d.text ++ b)) (byteLength a) (d.phrase tail initializer) =
      d.field (byteLength a) := by
  have hwords : Text.words d.afterAccess = d.words := by
    rw [← List.append_nil d.afterAccess, d.words_afterAccess fun c hc => absurd hc List.not_mem_nil]
  have htext : d.text ++ b = (d.phrase tail initializer).access ++
      ((d.phrase tail initializer).declarator ++ b) := by
    rw [declarator_phrase, text, List.append_assoc]
    rfl
  rw [htext, ofPhrase_append, visibility_phrase, declarator_phrase, normalizeBlanks, normalizeBlanks,
    hwords]
  rfl

theorem property_ofPhrase (tail : List Char) (initializer : Option (List Char)) (offset : Nat) :
    Property.ofPhrase offset (d.phrase tail initializer) = d.property offset := by
  simp only [Property.ofPhrase, visibility_phrase]
  rfl

end Declarator

/-- The clauses of a method end where its body or its semicolon stands. -/
theorem clausesEnd_append {cs : List Char} (hcs : ∀ c ∈ cs, c ∉ ['{', '}', ';', '='])
    {stop offset : Nat} (hstop : offset + byteLength cs ≤ stop) {d : Char} (hd : d = '{' ∨ d = ';')
    (rest : List Char) :
    Method.clausesEnd stop offset (cs ++ d :: rest) = offset + byteLength cs := by
  induction cs generalizing offset with
  | nil => rcases hd with rfl | rfl <;> simp [Method.clausesEnd]
  | cons c cs ih =>
      have hpos := c.utf8Size_pos
      have hmarks := hcs c List.mem_cons_self
      simp only [List.mem_cons, List.not_mem_nil, or_false, not_or] at hmarks
      obtain ⟨hbrace, _, hsemicolon, hequals⟩ := hmarks
      rw [byteLength_cons] at hstop ⊢
      rw [List.cons_append, Method.clausesEnd,
        if_neg (by simp [hbrace, hsemicolon, hequals]; omega),
        ih (fun d hd => hcs d (List.mem_cons_of_mem _ hd)) (by omega), Nat.add_assoc]

theorem signatureEnd?_append {inner clauses : List Char} (hinner : IsBalanced '(' ')' inner)
    (hclauses : ∀ c ∈ clauses, c ∉ ['{', '}', ';', '=']) {d : Char} (hd : d = '{' ∨ d = ';')
    (a rest : List Char) {stop : Nat}
    (hstop : byteLength a + 1 + byteLength inner + 1 + byteLength clauses ≤ stop) :
    Method.signatureEnd? (a ++ '(' :: (inner ++ ')' :: (clauses ++ d :: rest))) stop
        (byteLength a) =
      some (byteLength a + 1 + byteLength inner + 1 + byteLength clauses) := by
  have hclose : partner? '(' ')' (byteLength a) ('(' :: (inner ++ ')' :: (clauses ++ d :: rest))) =
      some (byteLength a + 1 + byteLength inner) := partner?_balanced hinner (by decide) _ _
  have hsize : byteLength (a ++ '(' :: (inner ++ [')'])) =
      byteLength a + 1 + byteLength inner + 1 := by
    have hmarks : '('.utf8Size = 1 ∧ ')'.utf8Size = 1 := by decide
    simp only [byteLength_append, byteLength_cons, byteLength_nil, hmarks]
    omega
  have hdrop : dropBytes (byteLength a + 1 + byteLength inner + 1)
      (a ++ '(' :: (inner ++ ')' :: (clauses ++ d :: rest))) = clauses ++ d :: rest := by
    have hparts : a ++ '(' :: (inner ++ ')' :: (clauses ++ d :: rest)) =
        (a ++ '(' :: (inner ++ [')'])) ++ (clauses ++ d :: rest) := by simp
    rw [← hsize, hparts, dropBytes_append]
  rw [Method.signatureEnd?, dropBytes_append, hclose, Option.bind_eq_bind, Option.bind_some, hdrop,
    clausesEnd_append hclauses hstop hd]

/-- A method is found with its whole signature, whatever its body is. -/
theorem Declarator.method_ofPhrase? (d : Declarator language) (gap : Blanks)
    (parameters : Parameters) (clauses : Clauses) (body : Option Stretch) {source : Masked}
    {a b a' b' : List Char}
    (hcode : source.code = a ++ (d.text ++ (gap.text ++ '(' :: (parameters.code ++
      ')' :: (clauses.code ++ b)))))
    (hskeleton : source.skeleton = a' ++ (d.text ++ (gap.text ++ '(' :: (parameters.skeleton ++
      ')' :: (clauses.skeleton ++ (bodied Stretch.skeleton body ++ b'))))))
    (ha : byteLength a' = byteLength a) {stop : Nat}
    (hstop : byteLength a + byteLength d.text + byteLength gap.text + 1 +
      byteLength parameters.skeleton + 1 + byteLength clauses.skeleton ≤ stop) :
    Method.ofPhrase? source stop (byteLength a) (d.phrase (gap.text ++ ['(']) none) =
      some (d.method gap parameters clauses (byteLength a)) := by
  have hmarks : '('.utf8Size = 1 ∧ ')'.utf8Size = 1 := by decide
  -- The offsets are found in the skeleton and cut the code, which is as long in front of the body.
  obtain ⟨e, rest, hrest, he⟩ : ∃ e rest, bodied Stretch.skeleton body ++ b' = e :: rest ∧
      (e = '{' ∨ e = ';') := by
    cases body with
    | none => exact ⟨';', b', rfl, .inr rfl⟩
    | some s => exact ⟨'{', _, rfl, .inl rfl⟩
  have hsize : byteLength (a' ++ (d.text ++ gap.text)) =
      byteLength a + byteLength d.text + byteLength gap.text := by
    simp only [byteLength_append, ha, Nat.add_assoc]
  have hopening : byteLength a + byteLength (d.phrase (gap.text ++ ['(']) none).text - 1 =
      byteLength (a' ++ (d.text ++ gap.text)) := by
    simp only [hsize, text_phrase, byteLength_append, byteLength_cons, byteLength_nil, hmarks]
    omega
  rw [← hsize] at hstop
  have hend := signatureEnd?_append parameters.paired clauses.unbroken he
    (a' ++ (d.text ++ gap.text)) rest hstop
  have hparts : source.skeleton = (a' ++ (d.text ++ gap.text)) ++
      '(' :: (parameters.skeleton ++ ')' :: (clauses.skeleton ++ e :: rest)) := by
    rw [hskeleton, hrest]
    simp
  have hslice : slice source.code ⟨byteLength a + byteLength d.access.toList,
      byteLength a + byteLength d.text + byteLength gap.text + 1 +
        byteLength parameters.skeleton + 1 + byteLength clauses.skeleton⟩ =
      d.afterAccess ++ (gap.text ++ '(' :: (parameters.code ++ ')' :: clauses.code)) := by
    have hcode' : source.code = (a ++ d.access.toList) ++ ((d.afterAccess ++
        (gap.text ++ '(' :: (parameters.code ++ ')' :: clauses.code))) ++ b) := by
      rw [hcode, text]
      simp
    rw [hcode']
    apply slice_append_of_eq (byteLength_append ..).symm
    simp only [text, byteLength_append, byteLength_cons, hmarks, Stretch.byteLength_code]
    omega
  have haccess : (d.phrase (gap.text ++ ['(']) none).access = d.access.toList := rfl
  rw [Method.ofPhrase?, hopening, hparts, hend, hsize]
  simp only [Option.bind_eq_bind, Option.bind_some, haccess, hslice, visibility_phrase]
  rfl

namespace Class

variable (c : Class language)

/-- Where a member of the body stands in the copies of the source. -/
theorem exists_split {o : Nat} {m : Member language} (h : (o, m) ∈ placed 0 c.members) :
    ∃ a b a' b', (Masked.ofSource c.text).code = a ++ (m.bare Stretch.code ++ b) ∧
      (Masked.ofSource c.text).skeleton = a' ++ (m.bare Stretch.skeleton ++ b') ∧
      byteLength a = c.declaration.body.start + o ∧ byteLength a' = byteLength a ∧
      byteLength a + byteLength (m.bare Stretch.skeleton) ≤ c.declaration.body.stop := by
  obtain ⟨before, after, hmembers, ho⟩ := mem_placed h
  have hmark : '{'.utf8Size = 1 := by decide
  have hsize : ∀ view, byteLength (c.front ++
      '{' :: (before.flatMap (·.shown view) ++ m.leading.text)) =
      byteLength c.front + 1 + (byteLength (before.flatMap (·.shown view)) +
        byteLength m.leading.text) := by
    intro view
    simp only [byteLength_append, byteLength_cons, hmark]
    omega
  have hbody : ∀ view, c.body view = (before.flatMap (·.shown view) ++ m.leading.text) ++
      (m.bare view ++ (after.flatMap (·.shown view) ++ c.closing.text)) := by
    intro view
    simp [body, hmembers, Member.shown, Member.bare]
  refine ⟨c.front ++ '{' :: (before.flatMap (·.shown Stretch.code) ++ m.leading.text),
    (after.flatMap (·.shown Stretch.code) ++ c.closing.text) ++
      '}' :: (Masked.ofSource c.after).code,
    c.front ++ '{' :: (before.flatMap (·.shown Stretch.skeleton) ++ m.leading.text),
    (after.flatMap (·.shown Stretch.skeleton) ++ c.closing.text) ++
      '}' :: (Masked.ofSource c.after).skeleton, ?_, ?_, ?_, ?_, ?_⟩
  · rw [ofSource_text]
    simp [hbody Stretch.code]
  · rw [ofSource_text]
    simp [hbody Stretch.skeleton]
  · rw [hsize, byteLength_flatMap_code, ho]
    simp only [declaration]
    omega
  · rw [hsize, hsize, byteLength_flatMap_code]
  · rw [hsize, byteLength_flatMap_code]
    simp only [declaration, hbody Stretch.skeleton, byteLength_append]
    omega

/-- The declarations of a form in the body of a class, whatever its header is. -/
theorem within_bodyWith (heading : Heading) {form : Member.Form} {ends : List Char}
    (hform : form.Breaks ends) {found : Member language → Option Member.Phrase}
    (h : ∀ m ∈ c.members, Finds form m (found m)) :
    form.within (Masked.ofSource (c.textWith heading)).skeleton (c.declarationWith heading).body =
      (placed 0 c.members).filterMap fun (o, m) =>
        (found m).map ((c.declarationWith heading).body.start + o, ·) := by
  have hslice : slice (Masked.ofSource (c.textWith heading)).skeleton
      (c.declarationWith heading).body = c.body Stretch.skeleton := by
    rw [ofSource_textWith]
    exact c.slice_around heading _ _
  rw [Member.Form.within, hslice, body, occurrences_members hform h c.closing.blank,
    List.map_filterMap]
  apply List.filterMap_congr
  intro entry _
  rw [Option.map_map]
  rfl

theorem within_body {form : Member.Form} {ends : List Char} (hform : form.Breaks ends)
    {found : Member language → Option Member.Phrase}
    (h : ∀ m ∈ c.members, Finds form m (found m)) :
    form.within (Masked.ofSource c.text).skeleton c.declaration.body =
      (placed 0 c.members).filterMap fun (o, m) =>
        (found m).map (c.declaration.body.start + o, ·) :=
  c.within_bodyWith c.header.heading hform h

/-- The fields of a class, in order. -/
theorem declared_fields (hlacks : ∀ m ∈ c.members, m.Lacks language.accessKeywords) :
    Field.declared language (.ofSource c.text) c.declaration.body =
      (placed 0 c.members).filterMap fun (o, m) => m.field? (c.declaration.body.start + o) := by
  rw [Field.declared, c.within_body (Member.fieldForm_breaks language) fun m hm =>
    finds_fieldForm (hlacks m hm), List.map_filterMap]
  apply List.filterMap_congr
  rintro ⟨o, m⟩ hmem
  obtain ⟨a, b, a', b', hcode, _, ha, _, _⟩ := c.exists_split hmem
  dsimp only
  rw [hcode, ← ha, Member.bare, List.append_assoc]
  obtain ⟨leading, d, ending⟩ := m
  cases ending with
  | field gap initializer =>
      cases initializer with
      | none => exact congrArg some (d.field_ofPhrase _ _ a _)
      | some s => exact congrArg some (d.field_ofPhrase _ _ a _)
  | method gap parameters clauses body => rfl
  | property hcsharp accessors initializer => rfl

theorem declared_methods (hlacks : ∀ m ∈ c.members, m.Lacks language.accessKeywords) :
    Method.declared language (.ofSource c.text) c.declaration.body =
      (placed 0 c.members).filterMap fun (o, m) => m.method? (c.declaration.body.start + o) := by
  rw [Method.declared, c.within_body (Member.methodForm_breaks language) fun m hm =>
    finds_methodForm (hlacks m hm), List.filterMap_filterMap]
  apply List.filterMap_congr
  rintro ⟨o, m⟩ hmem
  obtain ⟨a, b, a', b', hcode, hskeleton, ha, ha', hstop⟩ := c.exists_split hmem
  dsimp only
  rw [← ha]
  obtain ⟨leading, d, ending⟩ := m
  cases ending with
  | field gap initializer => cases initializer <;> rfl
  | method gap parameters clauses body =>
      have hmarks : '('.utf8Size = 1 ∧ ')'.utf8Size = 1 := by decide
      simp only [Member.bare, Ending.shown, List.append_assoc, List.cons_append] at hcode hskeleton
      refine d.method_ofPhrase? gap parameters clauses body hcode hskeleton ha' ?_
      refine Nat.le_trans ?_ hstop
      simp only [Member.bare, Ending.shown, byteLength_append, byteLength_cons, hmarks]
      omega
  | property hcsharp accessors initializer => rfl

theorem declared_properties (hlacks : ∀ m ∈ c.members, m.Lacks language.accessKeywords) :
    Property.declared language (Masked.ofSource c.text).skeleton c.declaration.body =
      (placed 0 c.members).filterMap fun (o, m) => m.property? (c.declaration.body.start + o) := by
  rw [Property.declared, c.within_body (Member.propertyForm_breaks language) fun m hm =>
    finds_propertyForm (hlacks m hm), List.map_filterMap]
  apply List.filterMap_congr
  rintro ⟨o, m⟩ _
  obtain ⟨leading, d, ending⟩ := m
  cases ending with
  | field gap initializer => cases initializer <;> rfl
  | method gap parameters clauses body => rfl
  | property hcsharp accessors initializer => exact congrArg some (d.property_ofPhrase _ _ _)

end Class

end ClassDiagram.Printed
