import ClassDiagram.Proofs.Declaration.Name
import ClassDiagram.Proofs.Extraction.Shape
import ClassDiagram.Proofs.Layout.Grid
import ClassDiagram.Proofs.Model.Marker
import ClassDiagram.Proofs.Model.Store
import ClassDiagram.Proofs.Source.Alignment
import ClassDiagram.Proofs.Text.Normal

/-!
# The visibility of rows

A record keeps the visibility of a member as a marker in front of its text, and a row is drawn from
that text alone. The marker is found again: what a record holds behind it is normalized, and what a
record holds without a marker starts with a word. So a row shows the access keyword of the
declaration that it comes from, and a row of bare names is private.
-/

namespace ClassDiagram

open Text Source

/-! ## Declarations -/

/-- Every access keyword gives a visibility. -/
theorem ofKeyword?_eq_some {language : Language} {w : String} (hw : w ∈ language.accessKeywords)
    {p : Member.Phrase} (hp : p.access = w.toList) :
    Visibility.ofKeyword? w = some p.visibility := by
  have hsome : ∀ w ∈ language.accessKeywords, (Visibility.ofKeyword? w).isSome = true := by
    cases language <;> decide
  obtain ⟨v, hv⟩ := Option.isSome_iff_exists.mp (hsome w hw)
  rw [Member.Phrase.visibility, hp, String.ofList_toList, hv]
  rfl

theorem space_not_mem {name : List Char} (hname : IsIdentifier name) : ' ' ∉ name := by
  intro hmem
  exact absurd (hname.isWord _ hmem) (by decide)

/-- A signature of a declaration: its access keyword stands at its offset in the source and gives
its visibility, and its text is normalized. -/
structure Signature.IsDeclared (language : Language) (source : List Char) (s : Signature) :
    Prop where
  access : ∃ w ∈ language.accessKeywords, StandsAt w.toList s.offset source ∧
    Visibility.ofKeyword? w = some s.visibility
  normal : normalizeBlanks s.text.toList = s.text.toList

section Body

variable {language : Language} {source : List Char} {d : Declaration}
  (hfind : Declaration.find? language (Masked.ofSource source).skeleton = some d)
  {form : Member.Form} {ends : List Char} {o : Nat} {p : Member.Phrase}

include hfind

/-- The access keyword of a declaration is program text at the offset of the declaration. -/
theorem exists_access_in_source (hform : form.Breaks ends)
    (haccess : form.access = language.accessKeywords)
    (hmem : (o, p) ∈ form.within (Masked.ofSource source).skeleton d.body) :
    ∃ w ∈ language.accessKeywords, StandsAt w.toList o source ∧
      Visibility.ofKeyword? w = some p.visibility := by
  obtain ⟨before, back, after, hskeleton, rfl, hread, _⟩ := exists_place_in_body hfind hmem
  obtain ⟨w, hw, hkeyword⟩ := Member.Form.exists_access hread
  obtain ⟨afterName, rfl, _⟩ := hform.exists_afterName hread
  rw [haccess] at hw
  have hstands : StandsAt w.toList (byteLength before) (Masked.ofSource source).skeleton :=
    ⟨before, p.declarator ++ afterName ++ after, by simp [hskeleton, hkeyword], rfl⟩
  have hword := isIdentifier_accessKeywords language w hw
  obtain ⟨_, hsource⟩ :=
    Masked.standsAt_of_skeleton hword.ne_nil (space_not_mem hword) hstands
  exact ⟨w, hw, hsource, ofKeyword?_eq_some hw hkeyword⟩

omit hfind in
/-- A type and a name, as a record shows them. -/
theorem toList_typed (hform : form.Breaks ends) {cs : List Char}
    (hread : form.recognize cs = some p) :
    (String.ofList (normalizeBlanks p.type) ++ " " ++ String.ofList p.name).toList =
      normalizeBlanks (p.type ++ ' ' :: p.name) := by
  obtain ⟨_, _, _, _, _, _, _, htype, _⟩ := Member.Form.recognize_eq_some hread
  obtain ⟨_, _, c, hc, hblank⟩ := hform.types htype
  have hname := Member.Form.isIdentifier_name hread
  rw [normalizeBlanks_append_word (words_ne_nil hc hblank) hname.ne_nil
    fun c hc => isBlank_of_isWord (hname.isWord c hc)]
  simp

theorem isDeclared_field {f : Field}
    (hf : f ∈ Field.declared language (.ofSource source) d.body) :
    (Signature.ofField f).IsDeclared language source := by
  obtain ⟨⟨o, p⟩, hmem, rfl⟩ := List.mem_map.mp hf
  refine ⟨exists_access_in_source hfind (Member.fieldForm_breaks language) rfl hmem, ?_⟩
  simp only [Signature.ofField, Field.ofPhrase, String.toList_ofList]
  exact normalizeBlanks_normalizeBlanks _

theorem isDeclared_property {q : Property}
    (hq : q ∈ Property.declared language (Masked.ofSource source).skeleton d.body) :
    (Signature.ofProperty q).IsDeclared language source := by
  obtain ⟨⟨o, p⟩, hmem, rfl⟩ := List.mem_map.mp hq
  obtain ⟨_, _, _, _, hread⟩ := Member.Form.mem_within hmem
  have hform := Member.propertyForm_breaks language
  refine ⟨exists_access_in_source hfind hform rfl hmem, ?_⟩
  simp only [Signature.ofProperty, Property.ofPhrase, toList_typed hform hread]
  exact normalizeBlanks_normalizeBlanks _

theorem isDeclared_method {m : Method}
    (hm : m ∈ Method.declared language (.ofSource source) d.body) :
    (Signature.ofMethod m).IsDeclared language source := by
  obtain ⟨o, p, signatureEnd, hmem, _, rfl⟩ := Member.exists_signatureEnd_of_mem_declared hm
  refine ⟨exists_access_in_source hfind (Member.methodForm_breaks language) rfl hmem, ?_⟩
  simp only [Signature.ofMethod, String.toList_ofList]
  exact normalizeBlanks_normalizeBlanks _

theorem isDeclared_attribute {s : Signature}
    (hs : s ∈ Extraction.attributes language (.ofSource source) d.body) :
    s.IsDeclared language source := by
  cases language with
  | java =>
      obtain ⟨f, hf, rfl⟩ := List.mem_map.mp hs
      exact isDeclared_field hfind hf
  | csharp =>
      rcases List.mem_append.mp (List.mem_mergeSort.mp hs) with hfield | hproperty
      · obtain ⟨f, hf, rfl⟩ := List.mem_map.mp hfield
        exact isDeclared_field hfind hf
      · obtain ⟨q, hq, rfl⟩ := List.mem_map.mp hproperty
        exact isDeclared_property hfind hq

end Body

/-! ## Rows -/

/-- A row of a full record: its visibility is that of the access keyword at the offset of the
declaration, and its text is the glyph of that visibility and the normalized signature. -/
structure Row.IsOf (language : Language) (source : List Char) (row : Row) (s : Signature) :
    Prop where
  access : ∃ w ∈ language.accessKeywords, StandsAt w.toList s.offset source ∧
    Visibility.ofKeyword? w = some row.visibility
  text : row.text = String.ofList row.visibility.glyph ++ s.text
  normal : normalizeBlanks s.text.toList = s.text.toList

/-- A row of a record of bare names, for a member that it holds. -/
structure Row.IsBare (row : Row) (member : String) : Prop where
  visibility : row.visibility = .privateAccess
  text : row.text = "- " ++ member

variable {language : Language} {source : List Char}

theorem Signature.IsDeclared.row {s : Signature} (h : s.IsDeclared language source) (id : String)
    (kind : RowKind) (y height : Nat) :
    (Grid.row id kind s.marked y height).IsOf language source s := by
  have htrim : trim s.text.toList = s.text.toList := by
    rw [← h.normal]
    exact trim_normalizeBlanks _
  have hsplit : Visibility.split s.marked.toList = (s.visibility, s.text.toList) := by
    rw [s.toList_marked, Visibility.split_marker htrim]
  refine ⟨?_, ?_, h.normal⟩
  · simp only [Grid.row, hsplit]
    exact h.access
  · simp only [Grid.row, Visibility.normalize, hsplit, String.ofList_append, String.ofList_toList]

/-- A member that starts with a word, without white space around it. -/
theorem isBare_row {member : String} (hhead : ∃ c ∈ member.toList.head?, isWord c = true)
    (htrim : trim member.toList = member.toList) (id : String) (kind : RowKind) (y height : Nat) :
    (Grid.row id kind member y height).IsBare member := by
  obtain ⟨c, hc, hword⟩ := hhead
  obtain ⟨text, htext⟩ := List.head?_eq_some_iff.mp hc
  rw [htext] at htrim
  have hsplit : Visibility.split member.toList = (.privateAccess, member.toList) := by
    rw [htext, Visibility.split_of_isWord hword htrim]
  refine ⟨?_, ?_⟩
  · simp only [Grid.row, hsplit]
  · simp only [Grid.row, Visibility.normalize, hsplit, String.ofList_append, String.ofList_toList]
    rfl

/-- A type starts with a word, and so does a text that starts with the type. -/
theorem exists_head_typed {p : Member.Phrase} {cs : List Char}
    (hread : (Member.fieldForm language).recognize cs = some p) (rest : List Char) :
    ∃ c ∈ (normalizeBlanks (p.type ++ rest)).head?, isWord c = true := by
  obtain ⟨_, _, _, _, _, _, _, htype, _⟩ := Member.Form.recognize_eq_some hread
  obtain ⟨_, _, name, further, hname, hstart⟩ := mem_types htype
  obtain ⟨c, name, rfl⟩ := List.exists_cons_of_ne_nil hname.ne_nil
  have hword : isWord c = true := hname.head [] c rfl
  rw [hstart, List.cons_append, List.cons_append, head?_normalizeBlanks (isBlank_of_isWord hword)]
  exact ⟨c, rfl, hword⟩

theorem isBare_attribute {member : String}
    (h : member ∈ (extract .nameOnly language source).attributes) (id : String) (kind : RowKind)
    (y height : Nat) : (Grid.row id kind member y height).IsBare member := by
  obtain ⟨d, _, ⟨f, hf, rfl⟩ | ⟨hmode, _⟩⟩ := exists_field_or_property_of_mem_attributes h
  · obtain ⟨⟨o, p⟩, hmem, rfl⟩ := List.mem_map.mp hf
    obtain ⟨_, _, _, _, hread⟩ := Member.Form.mem_within hmem
    have htext := toList_typed (Member.fieldForm_breaks language) hread
    apply isBare_row <;> dsimp only [ExtractionMode.shownField, Field.ofPhrase] <;> rw [htext]
    · exact exists_head_typed hread _
    · exact trim_normalizeBlanks _
  · exact absurd hmode (by decide)

theorem isIdentifier_of_mem_methods {stretch : Masked} {range : Span} {m : Method}
    (hm : m ∈ Method.declared language stretch range) : IsIdentifier m.name.toList := by
  obtain ⟨o, p, signatureEnd, hmem, _, rfl⟩ := Member.exists_signatureEnd_of_mem_declared hm
  obtain ⟨_, _, _, _, hread⟩ := Member.Form.mem_within hmem
  simpa using Member.Form.isIdentifier_name hread

theorem isBare_method {member : String}
    (h : member ∈ (extract .nameOnly language source).methods) (id : String) (kind : RowKind)
    (y height : Nat) : (Grid.row id kind member y height).IsBare member := by
  obtain ⟨_, _, m, hm, rfl⟩ := exists_method_of_mem_methods h
  have hname := isIdentifier_of_mem_methods hm
  have htext : (ExtractionMode.nameOnly.shown m).toList = m.name.toList ++ ['(', ')'] := by
    simp [ExtractionMode.shown]
  apply isBare_row <;> rw [htext]
  · obtain ⟨c, name, hparts⟩ := List.exists_cons_of_ne_nil hname.ne_nil
    exact ⟨c, by rw [hparts]; rfl, hname.isWord c (hparts ▸ List.mem_cons_self)⟩
  · apply trim_of_forall_not_blank
    simp only [List.forall_mem_append]
    exact ⟨fun c hc => isBlank_of_isWord (hname.isWord c hc), by decide⟩

/-! ## Layouts -/

namespace Grid

/-- The diagram of a single class. -/
theorem exists_layout_single {settings : LayoutSettings} (hsettings : settings.validate = .ok ())
    {record : ClassRecord} (hname : record.name ≠ "") :
    ∃ diagram, layout settings (.ofParts [record] []) = .ok diagram ∧
      diagram.boxes = [box settings 0 record] := by
  obtain ⟨diagram, hlayout, hboxes, _⟩ := exists_layout hsettings (.ofParts [record] [])
  have hparts : (Model.ofParts [record] []).classes.toList = [record] ∧
      (Model.ofParts [record] []).relationships.toList = [] :=
    Model.toList_ofParts (List.forall_mem_singleton.mpr hname) (List.nodup_singleton _) (by simp)
  rw [hparts.1] at hboxes
  exact ⟨diagram, hlayout, hboxes⟩

end Grid

theorem name_extract_ne {d : Declaration}
    (hfind : Declaration.find? language (Masked.ofSource source).skeleton = some d)
    (mode : ExtractionMode) : (extract mode language source).name ≠ "" := by
  rw [extract_name, hfind, Option.map_some, Option.getD_some]
  obtain ⟨_, hname, _⟩ := Declaration.exists_find?_iff.mp ⟨d, hfind, rfl, rfl⟩
  intro hempty
  exact hname.ne_nil (by rw [hempty]; rfl)

/-- Visibility goes from a source to its diagram. The rows of a full record are those of the
declarations that it keeps, section by section and in order: each has the visibility of the access
keyword at the offset of its declaration, and shows the glyph of that visibility and the normalized
signature. The rows of a record of bare names are private and show its members unchanged. -/
theorem layout_extract_visibility {d : Declaration}
    (hfind : Declaration.find? language (Masked.ofSource source).skeleton = some d)
    {settings : LayoutSettings} (hsettings : settings.validate = .ok ()) :
    (∃ diagram box,
      layout settings (.ofParts [extract .fullSignature language source] []) = .ok diagram ∧
      diagram.boxes = [box] ∧
      List.Forall₂ (Row.IsOf language source) (box.rowsOf .attributes)
        (Signature.firstOfEachName []
          (Extraction.attributes language (.ofSource source) d.body)) ∧
      List.Forall₂ (Row.IsOf language source) (box.rowsOf .methods)
        (Signature.firstOfEachName []
          ((Method.declared language (.ofSource source) d.body).map .ofMethod))) ∧
    ∃ diagram box,
      layout settings (.ofParts [extract .nameOnly language source] []) = .ok diagram ∧
      diagram.boxes = [box] ∧
      List.Forall₂ Row.IsBare (box.rowsOf .attributes)
        (extract .nameOnly language source).attributes ∧
      List.Forall₂ Row.IsBare (box.rowsOf .methods)
        (extract .nameOnly language source).methods := by
  constructor
  · obtain ⟨diagram, hlayout, hboxes⟩ :=
      Grid.exists_layout_single hsettings (name_extract_ne hfind .fullSignature)
    refine ⟨diagram, _, hlayout, hboxes, ?_⟩
    apply Grid.forall₂_rowsOf_box (f := Signature.marked)
    · rw [extract, Extraction.ofMasked, hfind]
      rfl
    · rw [extract, Extraction.ofMasked, hfind]
      rfl
    · intro s hs
      rcases List.mem_append.mp hs with hs | hs
      · exact (isDeclared_attribute hfind (Signature.firstOfEachName_subset _ _ hs)).row
      · obtain ⟨m, hm, rfl⟩ := List.mem_map.mp (Signature.firstOfEachName_subset _ _ hs)
        exact (isDeclared_method hfind hm).row
  · obtain ⟨diagram, hlayout, hboxes⟩ :=
      Grid.exists_layout_single hsettings (name_extract_ne hfind .nameOnly)
    refine ⟨diagram, _, hlayout, hboxes, ?_⟩
    apply Grid.forall₂_rowsOf_box (List.map_id _).symm (List.map_id _).symm
    intro member hmember
    rcases List.mem_append.mp hmember with hmember | hmember
    · exact isBare_attribute hmember
    · exact isBare_method hmember

/-- A class with a member of each visibility, whose method shows a marker and a brace. -/
def mixedAccess : List Char :=
  ("class A \x7b internal  int x; public string N \x7b get; \x7d " ++
    "private\nvoid F(string s = \"- \x7d\") \x7b \x7d \x7d").toList

theorem layout_extract_visibility_mixedAccess :
    Declaration.find? .csharp (Masked.ofSource mixedAccess).skeleton =
        some ⟨"class", "A", ⟨7, 8⟩, ⟨9, 89⟩⟩ ∧
      LayoutSettings.default.validate = .ok () ∧
      (∃ diagram box,
        layout .default (.ofParts [extract .fullSignature .csharp mixedAccess] []) = .ok diagram ∧
        diagram.boxes = [box] ∧
        List.Forall₂ (Row.IsOf .csharp mixedAccess) (box.rowsOf .attributes)
          [⟨10, "x", .protectedAccess, "int x"⟩, ⟨27, "N", .publicAccess, "string N"⟩] ∧
        List.Forall₂ (Row.IsOf .csharp mixedAccess) (box.rowsOf .methods)
          [⟨52, "F", .privateAccess, "void F(string s = \"- \x7d\")"⟩]) ∧
      ∃ diagram box,
        layout .default (.ofParts [extract .nameOnly .csharp mixedAccess] []) = .ok diagram ∧
        diagram.boxes = [box] ∧ List.Forall₂ Row.IsBare (box.rowsOf .attributes) ["int x"] ∧
        List.Forall₂ Row.IsBare (box.rowsOf .methods) ["F()"] := by
  have hfind : Declaration.find? .csharp (Masked.ofSource mixedAccess).skeleton =
      some ⟨"class", "A", ⟨7, 8⟩, ⟨9, 89⟩⟩ := by decide +kernel
  -- The declarations are in the order of the source, so sorting them changes nothing.
  have hdeclared :
      (Field.declared .csharp (.ofSource mixedAccess) ⟨9, 89⟩).map Signature.ofField ++
        (Property.declared .csharp (Masked.ofSource mixedAccess).skeleton ⟨9, 89⟩).map
          Signature.ofProperty =
      [⟨10, "x", .protectedAccess, "int x"⟩, ⟨27, "N", .publicAccess, "string N"⟩] := by
    decide +kernel
  have hattributes : Signature.firstOfEachName []
      (Extraction.attributes .csharp (.ofSource mixedAccess) ⟨9, 89⟩) =
      [⟨10, "x", .protectedAccess, "int x"⟩, ⟨27, "N", .publicAccess, "string N"⟩] := by
    dsimp only [Extraction.attributes]
    rw [hdeclared, List.mergeSort_of_pairwise (by decide)]
    decide
  have hmethods : Signature.firstOfEachName []
      ((Method.declared .csharp (.ofSource mixedAccess) ⟨9, 89⟩).map .ofMethod) =
      [⟨52, "F", .privateAccess, "void F(string s = \"- \x7d\")"⟩] := by decide +kernel
  have hbare : (extract .nameOnly .csharp mixedAccess).attributes = ["int x"] ∧
      (extract .nameOnly .csharp mixedAccess).methods = ["F()"] := by decide +kernel
  have hsettings : LayoutSettings.default.validate = .ok () := rfl
  have hlayout := layout_extract_visibility hfind hsettings
  rw [hattributes, hmethods, hbare.1, hbare.2] at hlayout
  exact ⟨hfind, hsettings, hlayout⟩

end ClassDiagram
