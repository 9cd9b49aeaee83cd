import ClassDiagram.Proofs.Declaration.Name
import ClassDiagram.Proofs.Extraction.Exact
import ClassDiagram.Proofs.Extraction.Visibility
import ClassDiagram.Proofs.Source.Literal

/-!
# The two modes

A full record keeps, of all members of one name, the one that stands first; a record of bare names
keeps them all. Both list what is recognized in the body of the same declaration, in the order of
the source. So they tell the same names, once the repeated ones are left out of the second.
-/

namespace ClassDiagram

open Text Source

/-! ## The first signature of each name -/

namespace Signature

/-- No signature of the same name among `all` has a smaller offset. -/
def IsFirst (all : List Signature) (s : Signature) : Prop :=
  ∀ other ∈ all, other.name = s.name → s.offset ≤ other.offset

instance (all : List Signature) (s : Signature) : Decidable (IsFirst all s) :=
  inferInstanceAs (Decidable (∀ other ∈ all, other.name = s.name → s.offset ≤ other.offset))

/-- Of each name, the signatures with the smallest offset. -/
def firsts (all : List Signature) : List Signature := all.filter fun s => IsFirst all s

/-- Each signature stands behind those in front of it. -/
def IsOrdered (all : List Signature) : Prop := all.Pairwise fun a b => a.offset < b.offset

/-- Behind a signature, only those of another name can be the first ones of their names. -/
theorem isFirst_cons_iff {s t : Signature} {rest : List Signature} (hlt : s.offset < t.offset) :
    IsFirst (s :: rest) t ↔ s.name ≠ t.name ∧ IsFirst rest t := by
  rw [IsFirst, List.forall_mem_cons]
  refine and_congr_left' ⟨fun h hname => ?_, fun h hname => absurd hname h⟩
  exact absurd (h hname) (Nat.not_le_of_lt hlt)

/-- The names `seen` stand for signatures further in front. Of the others, each name keeps the
signature with the smallest offset. -/
theorem firstOfEachName_eq_filter {all : List Signature} (h : IsOrdered all)
    (seen : List String) :
    firstOfEachName seen all = all.filter fun s => s.name ∉ seen ∧ IsFirst all s := by
  induction all generalizing seen with
  | nil => rfl
  | cons s all ih =>
      obtain ⟨hs, hall⟩ := List.pairwise_cons.mp h
      have hfirst : IsFirst (s :: all) s :=
        List.forall_mem_cons.mpr ⟨fun _ => le_rfl, fun t ht _ => (hs t ht).le⟩
      rw [firstOfEachName]
      split
      next hseen =>
        -- What `s` would rule out is ruled out by its name already.
        have hmem : s.name ∈ seen := List.contains_iff_mem.mp hseen
        rw [ih hall, List.filter_cons_of_neg (by simp [hmem])]
        apply List.filter_congr
        intro t ht
        rw [decide_eq_decide, isFirst_cons_iff (hs t ht)]
        refine and_congr_right fun hnot => (and_iff_right fun hname => ?_).symm
        exact hnot (hname ▸ hmem)
      next hseen =>
        have hmem : s.name ∉ seen := mt List.contains_iff_mem.mpr hseen
        rw [ih hall, List.filter_cons_of_pos (by simp [hmem, hfirst])]
        congr 1
        apply List.filter_congr
        intro t ht
        rw [decide_eq_decide, isFirst_cons_iff (hs t ht), List.mem_cons, not_or, and_assoc,
          and_left_comm]
        exact and_congr_right' (and_congr_left' ne_comm)

/-- In the order of the source, keeping the first signature of each name is keeping the one with the
smallest offset. -/
theorem firstOfEachName_eq_firsts {all : List Signature} (h : IsOrdered all) :
    firstOfEachName [] all = firsts all := by
  rw [firstOfEachName_eq_filter h, firsts]
  simp

/-- What is shown of the names tells them apart, so the repeated names are the repeated texts. -/
theorem eraseDups_map_name {f : String → String} (hf : Function.Injective f)
    (all : List Signature) :
    (all.map fun s => f s.name).eraseDups = (firstOfEachName [] all).map fun s => f s.name := by
  rw [List.eraseDups, eraseDupsBy_map, firstOfEachName_eq]
  simp only [List.contains_nil, Bool.not_false, List.filter_true]
  congr 2
  funext a b
  rw [beq_eq_beq]
  exact hf.eq_iff

end Signature

/-! ## What is recognized in a source -/

namespace Extraction

/-- What is told of the first declaration of a source; nothing if there is none. -/
def ofFirst {α : Type} (language : Language) (source : List Char)
    (declared : Declaration → List α) : List α :=
  ((Declaration.find? language (Masked.ofSource source).skeleton).map declared).getD []

/-- The methods recognized in the body of a source. -/
def methodsOf (language : Language) (source : List Char) : List Signature :=
  ofFirst language source fun d =>
    (Method.declared language (.ofSource source) d.body).map .ofMethod

/-- The fields recognized in the body of a source. -/
def fieldsOf (language : Language) (source : List Char) : List Signature :=
  ofFirst language source fun d =>
    (Field.declared language (.ofSource source) d.body).map .ofField

/-- The properties recognized in the body of a source. Only C# has properties. -/
def propertiesOf (language : Language) (source : List Char) : List Signature :=
  match language with
  | .java => []
  | .csharp =>
    ofFirst .csharp source fun d =>
      (Property.declared .csharp (Masked.ofSource source).skeleton d.body).map .ofProperty

/-- The attributes recognized in the body of a source. -/
def attributesOf (language : Language) (source : List Char) : List Signature :=
  ofFirst language source fun d => attributes language (.ofSource source) d.body

variable {language : Language} {source : List Char}

theorem ofFirst_of_find? {α : Type} {d : Declaration}
    (h : Declaration.find? language (Masked.ofSource source).skeleton = some d)
    (declared : Declaration → List α) : ofFirst language source declared = declared d := by
  rw [ofFirst, h]
  rfl

theorem ofFirst_eq_nil {α : Type}
    (h : Declaration.find? language (Masked.ofSource source).skeleton = none)
    (declared : Declaration → List α) : ofFirst language source declared = [] := by
  rw [ofFirst, h]
  rfl

/-- What holds of every body, and of none at all, holds of the first one. -/
theorem ofFirst_induction {α : Type} {declared : Declaration → List α} {P : List α → Prop}
    (hnil : P []) (hfound : ∀ d, P (declared d)) : P (ofFirst language source declared) := by
  cases hfind : Declaration.find? language (Masked.ofSource source).skeleton with
  | none => rwa [ofFirst_eq_nil hfind]
  | some d =>
      rw [ofFirst_of_find? hfind]
      exact hfound d

theorem exists_of_mem_ofFirst {α : Type} {declared : Declaration → List α} {x : α}
    (h : x ∈ ofFirst language source declared) :
    ∃ d, Declaration.find? language (Masked.ofSource source).skeleton = some d ∧
      x ∈ declared d := by
  cases hfind : Declaration.find? language (Masked.ofSource source).skeleton with
  | none =>
      rw [ofFirst_eq_nil hfind] at h
      exact absurd h List.not_mem_nil
  | some d =>
      rw [ofFirst_of_find? hfind] at h
      exact ⟨d, rfl, h⟩

theorem attributesOf_perm (language : Language) (source : List Char) :
    (attributesOf language source).Perm
      (fieldsOf language source ++ propertiesOf language source) := by
  cases language with
  | java => rw [propertiesOf, List.append_nil, attributesOf, fieldsOf]; rfl
  | csharp =>
      cases hfind : Declaration.find? .csharp (Masked.ofSource source).skeleton with
      | none =>
          simp only [attributesOf, fieldsOf, propertiesOf, ofFirst_eq_nil hfind]
          rfl
      | some d =>
          simp only [attributesOf, fieldsOf, propertiesOf, ofFirst_of_find? hfind]
          exact List.mergeSort_perm _ _

end Extraction

/-! ## The order of the source -/

theorem Method.offset_ofPhrase? {source : Masked} {stop o : Nat} {p : Member.Phrase} {m : Method}
    (h : Method.ofPhrase? source stop o p = some m) : m.offset = o := by
  obtain ⟨_, _, hm⟩ := Option.bind_eq_some_iff.mp h
  exact (Option.some.inj hm) ▸ rfl

namespace Extraction

variable (language : Language) (source : Masked) (body : Span)

theorem isOrdered_methods :
    Signature.IsOrdered ((Method.declared language source body).map .ofMethod) := by
  have hwithin := (Member.methodForm language).pairwise_within source.skeleton body
  refine List.pairwise_map.mpr (hwithin.filterMap _ fun a b hlt m hm m' hm' => ?_)
  rw [Signature.ofMethod, Signature.ofMethod, Method.offset_ofPhrase? hm,
    Method.offset_ofPhrase? hm']
  exact hlt

theorem isOrdered_fields :
    Signature.IsOrdered ((Field.declared language source body).map .ofField) :=
  List.pairwise_map.mpr (List.pairwise_map.mpr
    ((Member.fieldForm language).pairwise_within source.skeleton body))

/-- A field and a property have different offsets: a field does not break with a brace. -/
theorem nodup_offsets :
    (((Field.declared language source body).map Signature.ofField ++
      (Property.declared language source.skeleton body).map Signature.ofProperty).map
        (·.offset)).Nodup := by
  have hnodup := (Member.fieldForm_breaks language).nodup_offsets
    (Member.propertyForm_breaks language) (by decide) source.skeleton body
  simp only [List.map_append, Field.declared, Property.declared, List.map_map] at hnodup ⊢
  exact hnodup

theorem isOrdered_attributes : Signature.IsOrdered (attributes language source body) := by
  cases language with
  | java => exact isOrdered_fields .java source body
  | csharp => exact pairwise_lt_mergeSort Signature.offset (nodup_offsets .csharp source body)

end Extraction

/-! ## The name at the end of an attribute -/

/-- The name of an attribute as a record shows it: its last word. -/
def attributeName (text : String) : String :=
  String.ofList ((words text.toList).getLast?.getD [])

theorem attributeName_eq {text name : String} {front : List Char}
    (h : text.toList = front ++ ' ' :: name.toList) (hname : IsIdentifier name.toList) :
    attributeName text = name := by
  have hwords : words text.toList = words front ++ [name.toList] := by
    rw [h, words_append_blank _ _ (by decide), words_of_forall_not_blank hname.ne_nil
      fun c hc => isBlank_of_isWord (hname.isWord c hc)]
  rw [attributeName, hwords, List.getLast?_concat]
  exact String.ofList_toList

section Body

variable {language : Language} {source : List Char} {d : Declaration}

/-- Between the type and the name of a member stands no literal, so the code shows the white space
of the skeleton. -/
theorem exists_front_of_shown {shown : List (Char × Layer)} (hpart : shown <:+: layers source)
    {lead type gap name : List Char}
    (hshown : shown.flatMap inSkeleton = lead ++ type ++ gap ++ name) (htype : IsType type)
    (hgap : ∀ c ∈ gap, isBlank c = true) (hname : IsIdentifier name) :
    ∃ front m, isBlank m = false ∧
      shown.flatMap inCode = (front ++ [m]) ++ (gap ++ name) := by
  obtain ⟨front, m, rfl, hm, hquote⟩ := htype.exists_last
  obtain ⟨c, further, rfl⟩ := List.exists_cons_of_ne_nil hname.ne_nil
  have hc : isBlank c = false := isBlank_of_isWord (hname.isWord c List.mem_cons_self)
  have hparts : shown.flatMap inSkeleton = (lead ++ front) ++ m :: (gap ++ c :: further) := by
    simpa using hshown
  obtain ⟨before, after, rfl, _, hafter⟩ := exists_program_of_flatMap hparts hm
  obtain ⟨between, later, rfl, rfl, hlater⟩ := exists_program_of_flatMap hafter hc
  obtain ⟨place, rest, hlayers⟩ := hpart
  have hsource : layers source = (place ++ before) ++
      (m, .program) :: (between ++ ((c, .program) :: later ++ rest)) := by
    rw [← hlayers]
    simp
  have hbetween : between.flatMap inCode = between.flatMap inSkeleton :=
    flatMap_inCode_of_blank hsource (by decide) (fun _ => hquote) hgap
  have hnamed : ((c, .program) :: later).flatMap inSkeleton = (c :: further) ++ [] := by
    rw [List.flatMap_cons, hlater, List.append_nil]
    rfl
  obtain ⟨named, last, hsplit, _, hcode, hlast⟩ :=
    exists_shown_of_skeleton (space_not_mem hname) hnamed
  obtain rfl := eq_nil_of_skeleton hlast
  rw [List.append_nil] at hsplit
  refine ⟨before.flatMap inCode, m, hm, ?_⟩
  rw [List.flatMap_append, List.flatMap_cons, List.flatMap_append, hbetween, hsplit, hcode]
  simp [inCode]

/-- A field shows its name behind a space. -/
theorem exists_front_of_field
    (hfind : Declaration.find? language (Masked.ofSource source).skeleton = some d) {f : Field}
    (hf : f ∈ Field.declared language (.ofSource source) d.body) :
    IsIdentifier f.name.toList ∧ ∃ front, f.signature.toList = front ++ ' ' :: f.name.toList := by
  have hform := Member.fieldForm_breaks language
  obtain ⟨⟨o, p⟩, hmem, rfl⟩ := List.mem_map.mp hf
  obtain ⟨_, _, _, _, hread⟩ := Member.Form.mem_within hmem
  have hname := Member.Form.isIdentifier_name hread
  obtain ⟨_, _, _, _, _, _, _, htype, hgap, _⟩ := Member.Form.recognize_eq_some hread
  obtain ⟨_, hne, hblank⟩ := blanks?_eq_some hgap
  obtain ⟨before, rest, hoffset, hstart, hstop⟩ := exists_cuts_of_declarator hfind hform hmem
  obtain ⟨shown, hinfix, hshown, hslice⟩ := hstart.exists_stretch hstop
  obtain ⟨front, m, hm, hcode⟩ :=
    exists_front_of_shown hinfix hshown (isType_of_mem_types htype) hblank hname
  have hwords : words (front ++ [m]) ≠ [] :=
    words_ne_nil (List.mem_append_right _ (List.mem_singleton_self m)) hm
  have hsingle : words p.name = [p.name] :=
    words_of_forall_not_blank hname.ne_nil fun c hc => isBlank_of_isWord (hname.isWord c hc)
  refine ⟨by simpa [Field.ofPhrase] using hname, [' '].intercalate (words (front ++ [m])), ?_⟩
  simp only [Field.ofPhrase, String.toList_ofList, hoffset, ← byteLength_append]
  rw [hslice, hcode, normalizeBlanks, words_append_gap hne hblank, hsingle,
    intercalate_concat _ _ hwords, List.singleton_append]

end Body

/-! ## The two records of a source -/

open Extraction

/-- The two records of a source name the same class. The full record has the methods and the
attributes that are recognized in its body, in order, and of each name only the one with the
smallest offset. The names of the methods, and in Java those of the attributes, are the same in both
records once the repeated ones are left out. -/
structure ModesAgree (language : Language) (source : List Char) : Prop where
  name : (extract .nameOnly language source).name = (extract .fullSignature language source).name
  methodsOrdered : Signature.IsOrdered (methodsOf language source)
  methods : (extract .fullSignature language source).methods =
    (Signature.firsts (methodsOf language source)).map (·.marked)
  methodNames : (extract .nameOnly language source).methods.eraseDups =
    (Signature.firsts (methodsOf language source)).map fun s => s.name ++ "()"
  attributes : ∃ merged : List Signature,
    merged.Perm (fieldsOf language source ++ propertiesOf language source) ∧
    Signature.IsOrdered merged ∧
    (extract .fullSignature language source).attributes =
      (Signature.firsts merged).map (·.marked)
  fieldNames : (extract .nameOnly language source).attributes.map attributeName =
    (fieldsOf language source).map (·.name)
  attributeNames : language = .java →
    (extract .fullSignature language source).attributes.map attributeName =
      ((extract .nameOnly language source).attributes.map attributeName).eraseDups

section Records

variable (language : Language) (source : List Char)

theorem isOrdered_methodsOf : Signature.IsOrdered (methodsOf language source) :=
  ofFirst_induction .nil fun d => isOrdered_methods language (.ofSource source) d.body

theorem isOrdered_attributesOf : Signature.IsOrdered (attributesOf language source) :=
  ofFirst_induction .nil fun d => isOrdered_attributes language (.ofSource source) d.body

theorem methods_fullSignature : (extract .fullSignature language source).methods =
    (Signature.firsts (methodsOf language source)).map (·.marked) := by
  rw [← Signature.firstOfEachName_eq_firsts (isOrdered_methodsOf language source), methodsOf,
    extract, ofMasked]
  split
  next hfind => rw [ofFirst_eq_nil hfind]; rfl
  next d hfind => rw [ofFirst_of_find? hfind]; rfl

theorem attributes_fullSignature : (extract .fullSignature language source).attributes =
    (Signature.firsts (attributesOf language source)).map (·.marked) := by
  rw [← Signature.firstOfEachName_eq_firsts (isOrdered_attributesOf language source),
    attributesOf, extract, ofMasked]
  split
  next hfind => rw [ofFirst_eq_nil hfind]; rfl
  next d hfind => rw [ofFirst_of_find? hfind]; rfl

theorem methods_nameOnly : (extract .nameOnly language source).methods =
    (methodsOf language source).map fun s => s.name ++ "()" := by
  rw [methodsOf, extract, ofMasked]
  split
  next hfind => rw [ofFirst_eq_nil hfind]; rfl
  next d hfind => rw [ofFirst_of_find? hfind, List.map_map]; rfl

theorem attributes_nameOnly : (extract .nameOnly language source).attributes.map attributeName =
    (fieldsOf language source).map (·.name) := by
  rw [fieldsOf, extract, ofMasked]
  split
  next hfind => rw [ofFirst_eq_nil hfind]; rfl
  next d hfind =>
    rw [ofFirst_of_find? hfind, List.map_map]
    simp only [nameOnly, List.map_map]
    apply List.map_congr_left
    intro f hf
    have hname := (exists_front_of_field hfind hf).1
    have htyped : (f.type ++ " " ++ f.name).toList = f.type.toList ++ ' ' :: f.name.toList := by
      simp
    exact attributeName_eq htyped hname

theorem attributeName_marked {s : Signature} (hs : s ∈ fieldsOf language source) :
    attributeName s.marked = s.name := by
  obtain ⟨d, hfind, hs⟩ := exists_of_mem_ofFirst hs
  obtain ⟨f, hf, rfl⟩ := List.mem_map.mp hs
  obtain ⟨hname, front, hfront⟩ := exists_front_of_field hfind hf
  have hmarked : (Signature.ofField f).marked.toList =
      (f.visibility.marker :: front) ++ ' ' :: f.name.toList := by
    rw [Signature.toList_marked]
    exact congrArg _ hfront
  exact attributeName_eq hmarked hname

/-- A full record keeps the first member of each name, and the two modes agree on every source. -/
theorem extract_modes_agree : ModesAgree language source where
  name := by rw [extract_name, extract_name]
  methodsOrdered := isOrdered_methodsOf language source
  methods := methods_fullSignature language source
  methodNames := by
    have hinjective : Function.Injective fun name : String => name ++ "()" := fun a b h => by
      simpa using h
    rw [methods_nameOnly, Signature.eraseDups_map_name hinjective,
      Signature.firstOfEachName_eq_firsts (isOrdered_methodsOf language source)]
  attributes := ⟨attributesOf language source, attributesOf_perm language source,
    isOrdered_attributesOf language source, attributes_fullSignature language source⟩
  fieldNames := attributes_nameOnly language source
  attributeNames := by
    rintro rfl
    have hnames := Signature.eraseDups_map_name Function.injective_id (fieldsOf .java source)
    simp only [id] at hnames
    rw [attributes_nameOnly, hnames, attributes_fullSignature, List.map_map,
      ← Signature.firstOfEachName_eq_firsts (isOrdered_attributesOf .java source)]
    apply List.map_congr_left
    intro s hs
    exact attributeName_marked .java source (Signature.firstOfEachName_subset _ _ hs)

end Records

example :
    let source := ("class A \x7b private int x; public void f() \x7b \x7d " ++
      "public List<A> x; public int f(int y); \x7d").toList
    extract .nameOnly .java source = ⟨"A", ["int x", "List<A> x"], ["f()", "f()"]⟩ ∧
      extract .fullSignature .java source = ⟨"A", ["-int x"], ["+void f()"]⟩ := by
  decide +kernel

end ClassDiagram
