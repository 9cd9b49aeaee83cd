import ClassDiagram.Proofs.Extraction.Shape
import ClassDiagram.Proofs.Header.Checked
import ClassDiagram.Resolution

/-!
# Extraction and resolution with checked cuts

Extraction and resolution once more, with every part of the code or the skeleton taken by a checked
cut. Offsets are found in the skeleton, where a literal is white space, and used in the code, where
it may have characters of several bytes. Still no cut fails: every offset stands beside a character
of program text, where both copies can be divided.
-/

namespace ClassDiagram

open Text Source

/-! ## Extents in the copies of a source -/

/-- Where the source can be divided, the code can be divided at the offset in the skeleton. -/
theorem Source.IsCut.isBoundary_code {source a b : List Char} (h : IsCut source a b) :
    isBoundary (byteLength a) (Masked.ofSource source).code = true := by
  obtain ⟨before, after, hlayers, rfl, _⟩ := h
  refine isBoundary_iff.mpr ⟨before.flatMap inCode, after.flatMap inCode, ?_, ?_⟩
  · rw [Masked.ofSource, hlayers, List.flatMap_append]
  · rw [byteLength_flatMap byteLength_inSkeleton, byteLength_flatMap byteLength_inCode]

theorem Source.IsCut.isExtent_code {source a u b : List Char} (hstart : IsCut source a (u ++ b))
    (hstop : IsCut source (a ++ u) b) :
    IsExtent (Masked.ofSource source).code ⟨byteLength a, byteLength (a ++ u)⟩ := by
  refine isExtent_of_isBoundary ?_ hstart.isBoundary_code hstop.isBoundary_code
  rw [byteLength_append]
  exact Nat.le_add_right _ _

/-- The header and the body of a declaration are extents of the skeleton. -/
theorem Declaration.isExtent_of_find? {language : Language} {skeleton : List Char}
    {d : Declaration} (h : find? language skeleton = some d) :
    IsExtent skeleton d.header ∧ IsExtent skeleton d.body := by
  obtain ⟨front, header, rest, rfl, hheader, hbody | ⟨body, after, rfl, hbody, _⟩⟩ :=
    exists_parts_of_find? h
  · rw [hheader, hbody]
    exact ⟨isExtent_append rfl rfl rfl,
      isExtent_append (u := []) (b := rest) (by simp) rfl (by simp)⟩
  · rw [hheader, hbody]
    exact ⟨isExtent_append rfl rfl rfl, isExtent_append (b := after) (by simp) rfl rfl⟩

/-! ## Members -/

namespace Checked

/-- The declarations of a form in a stretch of a skeleton. -/
def within (form : Member.Form) (skeleton : List Char) (range : Span) :
    Option (List (Nat × Member.Phrase)) := do
  let text ← cut? skeleton range
  some ((form.occurrences text).map fun (offset, p) => (range.start + offset, p))

def field (code : List Char) (offset : Nat) (p : Member.Phrase) : Option Field := do
  let start := offset + byteLength p.access
  let signature ← cut? code ⟨start, start + byteLength p.declarator⟩
  some {
    offset := offset
    visibility := p.visibility
    type := String.ofList (normalizeBlanks p.type)
    name := String.ofList p.name
    signature := String.ofList (normalizeBlanks signature) }

/-- The fields declared in a stretch of a source. -/
def fields (language : Language) (source : Masked) (range : Span) : Option (List Field) := do
  let found ← within (Member.fieldForm language) source.skeleton range
  found.mapM fun (offset, p) => field source.code offset p

/-- Where the signature of a method ends, if its parameter list is closed. -/
def signatureEnd (skeleton : List Char) (stop opening : Nat) : Option (Option Nat) := do
  let list ← cut? skeleton ⟨opening, byteLength skeleton⟩
  match partner? '(' ')' opening list with
  | none => some none
  | some close =>
    let clauses ← cut? skeleton ⟨close + 1, byteLength skeleton⟩
    some (some (Method.clausesEnd stop (close + 1) clauses))

def method (source : Masked) (stop offset : Nat) (p : Member.Phrase) :
    Option (Option Method) := do
  match ← signatureEnd source.skeleton stop (offset + byteLength p.text - 1) with
  | none => some none
  | some signatureEnd =>
    let signature ← cut? source.code ⟨offset + byteLength p.access, signatureEnd⟩
    some (some ⟨offset, p.visibility, String.ofList p.name,
      String.ofList (normalizeBlanks signature)⟩)

/-- The methods declared in a stretch of a source. -/
def methods (language : Language) (source : Masked) (range : Span) : Option (List Method) := do
  let found ← within (Member.methodForm language) source.skeleton range
  let judged ← found.mapM fun (offset, p) => method source range.stop offset p
  some (judged.filterMap id)

/-- The properties declared in a stretch of a skeleton. -/
def properties (language : Language) (skeleton : List Char) (range : Span) :
    Option (List Property) := do
  let found ← within (Member.propertyForm language) skeleton range
  some (found.map fun (offset, p) => Property.ofPhrase offset p)

/-- The type that an initializer constructs, with its qualifiers. -/
def constructedType? (initializer : List Char) : Option (List Char) := do
  let expression := (trimStart initializer).dropWhile (· = '=')
  let (_, afterNew) ← Reader.sequence [.gap, .word ["new"], .space] expression
  let (type, afterType) ← Reader.qualified afterNew
  match afterType.dropWhile (· ≠ '(') with
  | [] => none
  | _ :: _ => if TypeList.areArguments (afterType.takeWhile (· ≠ '(')) then some type else none

/-- The simple name of the type that an initializer constructs. -/
def constructed (initializer : List Char) : Option (Option (List Char)) :=
  match constructedType? initializer with
  | none => some none
  | some type => do
    let name ← simpleName type
    some (some name)

def holder (offset : Nat) (p : Member.Phrase) : Option Holder := do
  let constructed ← match p.initializer with
    | none => some none
    | some initializer => constructed initializer
  some ⟨offset, String.ofList p.type, constructed.map String.ofList⟩

/-- The holders of a form in a stretch of a skeleton. -/
def holders (form : Member.Form) (skeleton : List Char) (range : Span) :
    Option (List Holder) := do
  let found ← within form skeleton range
  found.mapM fun (offset, p) => holder offset p

/-! ## Records -/

/-- The attributes of a body. -/
def attributes (language : Language) (source : Masked) (body : Span) :
    Option (List Signature) := do
  let fields ← fields language source body
  match language with
  | .java => some (fields.map .ofField)
  | .csharp =>
    let properties ← properties language source.skeleton body
    some ((fields.map Signature.ofField ++ properties.map Signature.ofProperty).mergeSort
      fun a b => a.offset ≤ b.offset)

/-- The class record of a source. -/
def extract (mode : ExtractionMode) (language : Language) (source : List Char) :
    Option ClassRecord :=
  let masked := Masked.ofSource source
  match Declaration.find? language masked.skeleton with
  | none => some .unnamed
  | some d =>
    match mode with
    | .nameOnly => do
      let fields ← fields language masked d.body
      let methods ← methods language masked d.body
      some ⟨d.name, fields.map fun f => f.type ++ " " ++ f.name,
        methods.map fun m => m.name ++ "()"⟩
    | .fullSignature => do
      let attributes ← attributes language masked d.body
      let methods ← methods language masked d.body
      some ⟨d.name, (Signature.firstOfEachName [] attributes).map (·.marked),
        (Signature.firstOfEachName [] (methods.map .ofMethod)).map (·.marked)⟩

/-! ## Relationships -/

/-- What the listed types of a clause give. -/
def ofClause (kind : List Char → RelationshipKind) (start : Nat) (clause : HeaderClause) :
    Option (List Candidate) :=
  clause.items.mapM fun item => do
    let name ← simpleName item
    some ⟨start + clause.offset, String.ofList name, kind name⟩

/-- What the base clauses of a header give. -/
def ofHeader (language : Language) (skeleton : List Char) (header : Span) :
    Option (List Candidate) := do
  let text ← cut? skeleton header
  match language with
  | .java =>
    let clauses ← javaClauses text
    let found ← clauses.mapM fun clause =>
      let kind : RelationshipKind :=
        if clause.keyword = "extends".toList then .inheritance else .implementation
      ofClause (fun _ => kind) header.start clause
    some found.flatten
  | .csharp =>
    let bases ← csharpBases text
    let found ← bases.toList.mapM (ofClause Resolution.csharpBaseKind header.start)
    some found.flatten

/-- Everything a declaration may point at. -/
def candidates (language : Language) (skeleton : List Char) (d : Declaration) :
    Option (List Candidate) := do
  let bases ← ofHeader language skeleton d.header
  let held ← match language with
    | .java => holders (Member.heldFieldForm language) skeleton d.body
    | .csharp => do
      let properties ← holders (Member.autoPropertyForm language) skeleton d.body
      let fields ← holders (Member.heldFieldForm language) skeleton d.body
      some (properties ++ fields)
  some ((bases ++ held.map Candidate.ofHolder).mergeSort fun a b => a.offset ≤ b.offset)

/-- The relationships of the class `owner` that a source declares. -/
def resolve (language : Language) (source : List Char) (owner : String)
    (known : String → Bool) : Option (List Relationship) :=
  let skeleton := (Masked.ofSource source).skeleton
  match Declaration.find? language skeleton with
  | none => some []
  | some d =>
    if d.name = owner then do
      let found ← candidates language skeleton d
      some ((found.filter fun c => known c.target).map fun c => ⟨owner, c.target, c.kind⟩)
    else some []

/-! ## No cut fails -/

/-- A signature is cut behind the parenthesis that opens the parameter list and behind the one that
closes it. -/
theorem signatureEnd_eq {skeleton text rest : List Char}
    (hskeleton : skeleton = text ++ '(' :: rest) (stop : Nat) :
    signatureEnd skeleton stop (byteLength text) =
      some (Method.signatureEnd? skeleton stop (byteLength text)) := by
  have hlist : cut? skeleton ⟨byteLength text, byteLength skeleton⟩ = some ('(' :: rest) :=
    cut?_append (b := []) (by simp [hskeleton]) rfl (by rw [hskeleton])
  have hdrop : dropBytes (byteLength text) skeleton = '(' :: rest := by
    rw [hskeleton, dropBytes_append]
  simp only [signatureEnd, Method.signatureEnd?, hlist, hdrop, Option.bind_eq_bind,
    Option.bind_some]
  cases hclose : partner? '(' ')' (byteLength text) ('(' :: rest) with
  | none => rfl
  | some close =>
      obtain ⟨inner, further, _, hclosed, hsize⟩ := Method.exists_parts_of_closing hskeleton hclose
      have hclauses : cut? skeleton ⟨byteLength (text ++ (inner ++ [')'])), byteLength skeleton⟩ =
          some further := cut?_append (b := []) (by simp [hclosed]) rfl (by rw [hclosed])
      have hbehind : dropBytes (byteLength (text ++ (inner ++ [')']))) skeleton = further := by
        rw [hclosed, dropBytes_append]
      simp only [hsize, hclauses, hbehind, Option.bind_some]

theorem map_constructedType? (initializer : List Char) :
    (constructedType? initializer).map TypeList.simpleName =
      TypeList.constructed? initializer := by
  simp only [constructedType?, TypeList.constructed?, Option.bind_eq_bind]
  cases Reader.sequence [.gap, .word ["new"], .space]
      ((trimStart initializer).dropWhile (· = '=')) with
  | none => rfl
  | some construction =>
      simp only [Option.bind_some]
      cases Reader.qualified construction.2 with
      | none => rfl
      | some named =>
          simp only [Option.bind_some]
          cases named.2.dropWhile (· ≠ '(') with
          | nil => rfl
          | cons c cs =>
              dsimp only
              split <;> rfl

theorem constructed_eq (initializer : List Char) :
    constructed initializer = some (TypeList.constructed? initializer) := by
  rw [← map_constructedType?, constructed]
  cases constructedType? initializer with
  | none => rfl
  | some type =>
      simp only [simpleName_eq]
      rfl

theorem holder_eq (offset : Nat) (p : Member.Phrase) :
    holder offset p = some (Holder.ofPhrase offset p) := by
  rw [holder, Holder.ofPhrase]
  cases p.initializer with
  | none => rfl
  | some initializer =>
      simp only [constructed_eq]
      rfl

theorem ofClause_eq (kind : List Char → RelationshipKind) (start : Nat) (clause : HeaderClause) :
    ofClause kind start clause = some (Candidate.ofClause kind start clause) := by
  refine mapM_eq_some fun item _ => ?_
  rw [simpleName_eq]
  rfl

section Body

variable {language : Language} {source : List Char} {d : Declaration}
  (hfind : Declaration.find? language (Masked.ofSource source).skeleton = some d)

include hfind

theorem within_eq (form : Member.Form) :
    within form (Masked.ofSource source).skeleton d.body =
      some (form.within (Masked.ofSource source).skeleton d.body) := by
  rw [within, cut?_of_isExtent (Declaration.isExtent_of_find? hfind).2]
  rfl

theorem field_eq {o : Nat} {p : Member.Phrase}
    (hmem : (o, p) ∈ (Member.fieldForm language).within (Masked.ofSource source).skeleton d.body) :
    field (Masked.ofSource source).code o p =
      some (Field.ofPhrase (Masked.ofSource source).code o p) := by
  obtain ⟨before, rest, hoffset, hstart, hstop⟩ :=
    exists_cuts_of_declarator hfind (Member.fieldForm_breaks language) hmem
  have hextent := hstart.isExtent_code hstop
  rw [byteLength_append, ← hoffset] at hextent
  simp only [field, cut?_of_isExtent hextent]
  rfl

theorem fields_eq : fields language (.ofSource source) d.body =
    some (Field.declared language (.ofSource source) d.body) := by
  rw [fields, within_eq hfind]
  exact mapM_eq_some fun ⟨o, p⟩ hmem => field_eq hfind hmem

theorem method_eq {o : Nat} {p : Member.Phrase}
    (hmem : (o, p) ∈ (Member.methodForm language).within (Masked.ofSource source).skeleton d.body) :
    method (.ofSource source) d.body.stop o p =
      some (Method.ofPhrase? (.ofSource source) d.body.stop o p) := by
  obtain ⟨before, lead, rest, hskeleton, _, hopening, _⟩ := exists_parts_of_method hfind hmem
  have hsignature := signatureEnd_eq hskeleton d.body.stop
  rw [← hopening] at hsignature
  simp only [method, Method.ofPhrase?, hsignature]
  cases hend : Method.signatureEnd? (Masked.ofSource source).skeleton d.body.stop
      (o + byteLength p.text - 1) with
  | none => rfl
  | some signatureEnd =>
      -- The end was found in the skeleton; the signature is cut from the code.
      obtain ⟨front, lead, clauses, remaining, haccess, rfl, hstart, hstop, _⟩ :=
        exists_cuts_of_signature hfind hmem hend
      have hextent := hstart.isExtent_code hstop
      rw [← haccess] at hextent
      simp only [Option.bind_eq_bind, Option.bind_some, cut?_of_isExtent hextent]

theorem methods_eq : methods language (.ofSource source) d.body =
    some (Method.declared language (.ofSource source) d.body) := by
  have hjudged : ((Member.methodForm language).within (Masked.ofSource source).skeleton
      d.body).mapM (fun (offset, p) => method (.ofSource source) d.body.stop offset p) =
        some (((Member.methodForm language).within (Masked.ofSource source).skeleton d.body).map
          fun (offset, p) => Method.ofPhrase? (.ofSource source) d.body.stop offset p) :=
    mapM_eq_some fun ⟨o, p⟩ hmem => method_eq hfind hmem
  simp only [methods, within_eq hfind, Option.bind_eq_bind, Option.bind_some, hjudged,
    List.filterMap_map]
  rfl

theorem properties_eq : properties language (Masked.ofSource source).skeleton d.body =
    some (Property.declared language (Masked.ofSource source).skeleton d.body) := by
  rw [properties, within_eq hfind]
  rfl

theorem holders_eq (form : Member.Form) :
    holders form (Masked.ofSource source).skeleton d.body =
      some ((form.within (Masked.ofSource source).skeleton d.body).map
        fun (offset, p) => Holder.ofPhrase offset p) := by
  rw [holders, within_eq hfind]
  exact mapM_eq_some fun ⟨o, p⟩ _ => holder_eq o p

theorem attributes_eq : attributes language (.ofSource source) d.body =
    some (Extraction.attributes language (.ofSource source) d.body) := by
  rw [attributes, fields_eq hfind, properties_eq hfind]
  cases language <;> rfl

theorem ofHeader_eq : ofHeader language (Masked.ofSource source).skeleton d.header =
    some (Resolution.ofHeader language (Masked.ofSource source).skeleton d.header) := by
  rw [ofHeader, cut?_of_isExtent (Declaration.isExtent_of_find? hfind).1]
  cases language with
  | java =>
      simp only [Option.bind_eq_bind, Option.bind_some, javaClauses_eq]
      rw [mapM_eq_some fun clause _ => ofClause_eq _ _ clause]
      rfl
  | csharp =>
      simp only [Option.bind_eq_bind, Option.bind_some, csharpBases_eq]
      rw [mapM_eq_some fun clause _ => ofClause_eq _ _ clause]
      rfl

theorem candidates_eq : candidates language (Masked.ofSource source).skeleton d =
    some (Resolution.candidates language (Masked.ofSource source).skeleton d) := by
  rw [candidates, ofHeader_eq hfind]
  cases language with
  | java =>
      simp only [holders_eq hfind]
      rfl
  | csharp =>
      simp only [holders_eq hfind]
      rfl

end Body

theorem extract_eq (mode : ExtractionMode) (language : Language) (source : List Char) :
    extract mode language source = some (ClassDiagram.extract mode language source) := by
  unfold extract ClassDiagram.extract Extraction.ofMasked
  dsimp only
  cases hfind : Declaration.find? language (Masked.ofSource source).skeleton with
  | none => rfl
  | some d =>
      cases mode with
      | nameOnly =>
          simp only [fields_eq hfind, methods_eq hfind]
          rfl
      | fullSignature =>
          simp only [attributes_eq hfind, methods_eq hfind]
          rfl

theorem resolve_eq (language : Language) (source : List Char) (owner : String)
    (known : String → Bool) : resolve language source owner known =
      some (ClassDiagram.resolve language source owner known) := by
  unfold resolve ClassDiagram.resolve Resolution.ofSkeleton
  dsimp only
  cases hfind : Declaration.find? language (Masked.ofSource source).skeleton with
  | none => rfl
  | some d =>
      simp only [candidates_eq hfind]
      split <;> rfl

end Checked

/-- Extraction and resolution cut no text out of bounds. With every cut checked they give what they
give without checks, and so do their parts: the recognizers of members on the body of a declaration,
and the readings of a header on any text. -/
theorem cuts_within_bounds (language : Language) (source : List Char) :
    (∀ mode, Checked.extract mode language source = some (extract mode language source)) ∧
    (∀ owner known, Checked.resolve language source owner known =
      some (resolve language source owner known)) ∧
    (∀ d, Declaration.find? language (Masked.ofSource source).skeleton = some d →
      IsExtent (Masked.ofSource source).skeleton d.header ∧
      IsExtent (Masked.ofSource source).skeleton d.body ∧
      Checked.fields language (.ofSource source) d.body =
        some (Field.declared language (.ofSource source) d.body) ∧
      Checked.methods language (.ofSource source) d.body =
        some (Method.declared language (.ofSource source) d.body) ∧
      Checked.properties language (Masked.ofSource source).skeleton d.body =
        some (Property.declared language (Masked.ofSource source).skeleton d.body) ∧
      Checked.holders (Member.heldFieldForm language) (Masked.ofSource source).skeleton d.body =
        some (Holder.fields language (Masked.ofSource source).skeleton d.body) ∧
      Checked.holders (Member.autoPropertyForm language) (Masked.ofSource source).skeleton d.body =
        some (Holder.autoProperties language (Masked.ofSource source).skeleton d.body)) ∧
    ∀ text,
      Checked.javaClauses text = some (Header.javaClauses text) ∧
      Checked.csharpBases text = some (Header.csharpBases text) ∧
      Checked.afterParameters text = some (TypeList.afterParameters text) ∧
      Checked.split text = some (TypeList.split text) ∧
      Checked.simpleName text = some (TypeList.simpleName text) := by
  refine ⟨fun mode => Checked.extract_eq mode language source,
    fun owner known => Checked.resolve_eq language source owner known, fun d hfind => ?_,
    fun text => ?_⟩
  · obtain ⟨hheader, hbody⟩ := Declaration.isExtent_of_find? hfind
    exact ⟨hheader, hbody, Checked.fields_eq hfind, Checked.methods_eq hfind,
      Checked.properties_eq hfind, Checked.holders_eq hfind _, Checked.holders_eq hfind _⟩
  · exact ⟨Checked.javaClauses_eq text, Checked.csharpBases_eq text,
      Checked.afterParameters_eq text, Checked.split_eq text, Checked.simpleName_eq text⟩

/-- A class with literals of characters of several bytes. -/
def wideLiterals : List Char :=
  "class A : B \x7b private B b = new B(\"é;\"); ".toList ++
    "public void F(string s = \"日本)\") \x7b \x7d \x7d".toList

/-- The signature of a method is cut behind a literal whose characters have several bytes. -/
theorem cuts_within_bounds_wideLiterals :
    Declaration.find? .csharp (Masked.ofSource wideLiterals).skeleton =
        some ⟨"class", "A", ⟨7, 12⟩, ⟨13, 82⟩⟩ ∧
      Checked.methods .csharp (.ofSource wideLiterals) ⟨13, 82⟩ =
        some [⟨42, .publicAccess, "F", "void F(string s = \"日本)\")"⟩] ∧
      cut? (Masked.ofSource wideLiterals).code ⟨13, 70⟩ = none := by
  have hfind : Declaration.find? .csharp (Masked.ofSource wideLiterals).skeleton =
      some ⟨"class", "A", ⟨7, 12⟩, ⟨13, 82⟩⟩ := by decide +kernel
  refine ⟨hfind, ?_, by decide +kernel⟩
  rw [((cuts_within_bounds .csharp wideLiterals).2.2.1 _ hfind).2.2.2.1]
  decide +kernel

end ClassDiagram
