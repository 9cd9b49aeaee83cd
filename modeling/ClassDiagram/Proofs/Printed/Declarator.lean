import ClassDiagram.Proofs.Member.Recognition
import ClassDiagram.Proofs.Source.Masking
import ClassDiagram.Proofs.Text.Bracket

/-!
# Declarators as they are written

The part that all members share: an access keyword, modifiers, a type and a name, with any white
space between them. A type is a name with dots, perhaps with arguments, array brackets and a
question mark. No modifier is used as a name.
-/

namespace ClassDiagram.Printed

open Text Source

/-- White space, or nothing. -/
structure Blanks where
  text : List Char
  blank : ∀ c ∈ text, isBlank c = true

/-- White space that keeps two words apart. -/
structure Gap extends Blanks where
  ne_nil : text ≠ []

def Blanks.none : Blanks := ⟨[], by decide⟩

def Blanks.space : Blanks := ⟨[' '], by decide⟩

def Gap.space : Gap := ⟨.space, by decide⟩

structure Identifier where
  text : List Char
  isIdentifier : IsIdentifier text

/-- Identifiers with dots between them. -/
structure QualifiedName where
  qualifier : List Identifier
  last : Identifier

def QualifiedName.text (name : QualifiedName) : List Char :=
  name.qualifier.flatMap (fun part => part.text ++ ['.']) ++ name.last.text

/-- Text that breaks nowhere and opens neither a literal nor a comment. -/
def IsSimple (cs : List Char) : Prop := ∀ c ∈ cs, endsArguments c = false ∧ isPlain c = true

instance : DecidablePred IsSimple := fun cs => inferInstanceAs (Decidable (∀ c ∈ cs, _))

/-- Angle brackets and what stands between them. -/
structure Brackets where
  gap : Blanks
  inner : List Char
  balanced : IsBalanced '<' '>' inner

def Brackets.text (brackets : Brackets) : List Char :=
  brackets.gap.text ++ '<' :: (brackets.inner ++ ['>'])

structure TypeArguments extends Brackets where
  simple : IsSimple inner

structure Rank where
  gap : Blanks
  inner : List Char
  rank : ∀ c ∈ inner, isRank c = true

def Rank.text (rank : Rank) : List Char := rank.gap.text ++ '[' :: (rank.inner ++ [']'])

/-- A type as it is written in front of a name. -/
structure TypeText where
  name : QualifiedName
  arguments : Option TypeArguments
  ranks : List Rank
  nullable : Bool

def TypeText.text (type : TypeText) : List Char :=
  type.name.text ++ ((type.arguments.elim [] (·.text)) ++
    (type.ranks.flatMap (·.text) ++ if type.nullable then ['?'] else []))

structure Modifier where
  gap : Gap
  word : String
  mem : word ∈ Language.modifiers

/-- From the access keyword of a member to its name. -/
structure Declarator (language : Language) where
  access : String
  access_mem : access ∈ language.accessKeywords
  modifiers : List Modifier
  typeGap : Gap
  type : TypeText
  type_free : mentions Language.modifiers none type.text = false
  nameGap : Gap
  name : Identifier
  name_free : ∀ w ∈ Language.modifiers, name.text ≠ w.toList

namespace Declarator

variable {language : Language} (d : Declarator language)

def lead : List Char :=
  d.modifiers.flatMap (fun m => m.gap.text ++ m.word.toList) ++ d.typeGap.text

/-- What follows the access keyword. -/
def afterAccess : List Char := d.lead ++ (d.type.text ++ (d.nameGap.text ++ d.name.text))

def text : List Char := d.access.toList ++ d.afterAccess

/-- The words after the access keyword: the modifiers, the words of the type, the name. -/
def words : List (List Char) :=
  d.modifiers.map (·.word.toList) ++ Text.words d.type.text ++ [d.name.text]

end Declarator

/-! ## Names and types are read as such -/

theorem IsName.append_qualified {a b : List Char} (ha : IsName isQualified a)
    (hb : ∀ c ∈ b, isQualified c = true) : IsName isQualified (a ++ b) := by
  cases a with
  | nil => exact ha.elim
  | cons c a =>
      refine ⟨ha.1, fun d hd => ?_⟩
      rcases List.mem_append.mp hd with hd | hd
      · exact ha.2 d hd
      · exact hb d hd

theorem QualifiedName.isName (name : QualifiedName) : IsName isQualified name.text := by
  obtain ⟨qualifier, last⟩ := name
  have hlast := isName_of_isIdentifier last.isIdentifier
  simp only [QualifiedName.text]
  induction qualifier with
  | nil => exact hlast
  | cons part qualifier ih =>
      rw [List.flatMap_cons, List.append_assoc, List.append_assoc]
      apply IsName.append_qualified (isName_of_isIdentifier part.isIdentifier)
      intro c hc
      rcases List.mem_append.mp hc with hc | hc
      · rw [List.mem_singleton.mp hc]
        decide +kernel
      · exact ih.isQualified c hc

theorem TypeArguments.isArguments (arguments : TypeArguments) : IsArguments arguments.text :=
  ⟨_, _, arguments.gap.blank, fun c hc => (arguments.simple c hc).1, rfl⟩

theorem isBrackets_ranks (ranks : List Rank) : IsBrackets (ranks.flatMap (·.text)) := by
  induction ranks with
  | nil => exact .none
  | cons rank ranks ih =>
      have hpair := IsBrackets.pair rank.gap.blank rank.rank ih
      simpa [Rank.text] using hpair

theorem TypeText.isType (type : TypeText) : IsType type.text := by
  refine .mk type.name.isName ?_ (isBrackets_ranks type.ranks) ?_
  · cases type.arguments with
    | none => exact .inl rfl
    | some arguments => exact .inr arguments.isArguments
  · cases type.nullable with
    | false => exact .inl rfl
    | true => exact .inr rfl

theorem TypeText.head (type : TypeText) (rest : List Char) :
    ∀ c ∈ (type.text ++ rest).head?, isWord c = true := by
  rw [TypeText.text, List.append_assoc]
  exact type.name.isName.head _

theorem TypeText.ne_nil (type : TypeText) : type.text ≠ [] := by
  simp [TypeText.text, type.name.isName.ne_nil]

/-- A type that mentions no modifier is not taken for one. -/
theorem TypeText.endsLead {type : TypeText} {modifiers : List String}
    (hwords : ∀ w ∈ modifiers, IsIdentifier w.toList)
    (hfree : mentions modifiers none type.text = false) {rest : List Char}
    (hrest : ∀ c ∈ rest.head?, isWord c = false) : EndsLead modifiers (type.text ++ rest) := by
  refine ⟨fun c hc => isBlank_of_isWord (type.head rest c hc), fun w after hw c hc => ?_⟩
  obtain ⟨v, hv, rfl, hparts⟩ := Reader.word_eq_some hw
  -- With white space behind it, the modifier would stand in the type as a whole word.
  cases hblank : isBlank c with
  | false => rfl
  | true =>
      have hends : endsWord after = true := endsWord_iff.mpr fun d hd => by
        obtain rfl := Option.some.inj (hc.symm.trans hd)
        exact isWord_of_isBlank hblank
      have hstands := startsWithWord_of_append hwords hrest
        (startsWithWord_iff.mpr ⟨v, hv, after, hparts, hends⟩)
      have hplace : IsPlace type.text [] type.text := ⟨rfl, type.ne_nil⟩
      rw [mentions_eq_false hfree hplace rfl] at hstands
      exact absurd hstands Bool.false_ne_true

/-! ## Type and name break nowhere and open nothing -/

theorem isPlain_of_isQualified {c : Char} (h : isQualified c = true) : isPlain c = true :=
  isPlain_of_forall (by decide +kernel) h

theorem isPlain_of_isWord {c : Char} (h : isWord c = true) : isPlain c = true :=
  isPlain_of_forall (by decide +kernel) h

theorem isPlain_of_isBlank {c : Char} (h : isBlank c = true) : isPlain c = true :=
  isPlain_of_forall (by decide +kernel) h

theorem isSimple_append {a b : List Char} : IsSimple (a ++ b) ↔ IsSimple a ∧ IsSimple b :=
  List.forall_mem_append

theorem isSimple_cons {c : Char} {cs : List Char} :
    IsSimple (c :: cs) ↔ (endsArguments c = false ∧ isPlain c = true) ∧ IsSimple cs :=
  List.forall_mem_cons

theorem isSimple_flatMap {α : Type} {f : α → List Char} {xs : List α} :
    IsSimple (xs.flatMap f) ↔ ∀ x ∈ xs, IsSimple (f x) := by
  simp only [IsSimple, List.mem_flatMap]
  exact ⟨fun h x hx c hc => h c ⟨x, hx, hc⟩, fun h c ⟨x, hx, hc⟩ => h x hx c hc⟩

theorem isSimple_of_isBlank {cs : List Char} (h : ∀ c ∈ cs, isBlank c = true) : IsSimple cs :=
  fun c hc => ⟨endsArguments_of_isBlank (h c hc), isPlain_of_isBlank (h c hc)⟩

theorem isSimple_of_isWord {cs : List Char} (h : ∀ c ∈ cs, isWord c = true) : IsSimple cs :=
  fun c hc => ⟨endsArguments_of_isWord (h c hc), isPlain_of_isWord (h c hc)⟩

theorem TypeArguments.isSimple (arguments : TypeArguments) : IsSimple arguments.text := by
  rw [Brackets.text, isSimple_append, isSimple_cons, isSimple_append]
  exact ⟨isSimple_of_isBlank arguments.gap.blank, by decide,
    arguments.simple, List.forall_mem_singleton.mpr (by decide)⟩

theorem Rank.isSimple (rank : Rank) : IsSimple rank.text := by
  rw [Rank.text, isSimple_append, isSimple_cons, isSimple_append]
  refine ⟨isSimple_of_isBlank rank.gap.blank, by decide, fun c hc => ?_,
    List.forall_mem_singleton.mpr (by decide)⟩
  refine ⟨endsArguments_of_isRank (rank.rank c hc), ?_⟩
  rcases Bool.or_eq_true_iff.mp (rank.rank c hc) with h | h
  · exact isPlain_of_isBlank h
  · rw [of_decide_eq_true h]
    decide

theorem TypeText.isSimple (type : TypeText) : IsSimple type.text := by
  rw [TypeText.text, isSimple_append, isSimple_append, isSimple_append]
  refine ⟨fun c hc => ?_, ?_, isSimple_flatMap.mpr fun rank _ => rank.isSimple, ?_⟩
  · have hqualified := type.name.isName.isQualified c hc
    exact ⟨endsArguments_of_isQualified hqualified, isPlain_of_isQualified hqualified⟩
  · cases type.arguments with
    | none => exact fun c hc => absurd hc List.not_mem_nil
    | some arguments => exact arguments.isSimple
  · cases type.nullable <;> decide

/-! ## What follows a declarator -/

/-- White space and then the character `m`, which breaks a declaration. -/
structure BreaksWith (m : Char) (cs : List Char) : Prop where
  breaks : endsArguments m = true
  parts : ∃ gap further, (∀ c ∈ gap, isBlank c = true) ∧ cs = gap ++ m :: further

namespace BreaksWith

variable {m : Char} {cs : List Char} (h : BreaksWith m cs)

include h

theorem find? : cs.find? endsArguments = some m := by
  obtain ⟨hbreaks, gap, further, hgap, rfl⟩ := h
  rw [find?_unbroken_append (unbroken_of_forall_isBlank hgap), List.find?_cons, hbreaks]

theorem startsWithBreak : Member.StartsWithBreak cs := by
  obtain ⟨hbreaks, gap, further, hgap, rfl⟩ := h
  exact ⟨m, gap, further, hbreaks, hgap, rfl⟩

end BreaksWith

namespace Declarator

variable {language : Language} (d : Declarator language)

theorem isLead_of_mem {words : List String} (h : ∀ m ∈ d.modifiers, m.word ∈ words) :
    IsLead words (d.modifiers.map (·.word)) d.lead := by
  rw [lead]
  revert h
  induction d.modifiers with
  | nil => exact fun _ => .gap d.typeGap.ne_nil d.typeGap.blank
  | cons m modifiers ih =>
      intro h
      obtain ⟨hm, hmodifiers⟩ := List.forall_mem_cons.mp h
      rw [List.flatMap_cons, List.append_assoc, List.append_assoc]
      exact .modifier m.gap.ne_nil m.gap.blank hm (ih hmodifiers)

theorem isLead : IsLead Language.modifiers (d.modifiers.map (·.word)) d.lead :=
  d.isLead_of_mem fun m _ => m.mem

theorem isSimple_lead : IsSimple d.lead := by
  rw [lead, isSimple_append, isSimple_flatMap]
  refine ⟨fun m _ => isSimple_append.mpr ⟨isSimple_of_isBlank m.gap.blank, ?_⟩,
    isSimple_of_isBlank d.typeGap.blank⟩
  exact isSimple_of_isWord (isIdentifier_modifiers m.word m.mem).isWord

theorem isSimple_text : IsSimple d.text := by
  rw [text, afterAccess, isSimple_append, isSimple_append, isSimple_append, isSimple_append]
  exact ⟨isSimple_of_isWord (isIdentifier_accessKeywords language d.access d.access_mem).isWord,
    d.isSimple_lead, d.type.isSimple, isSimple_of_isBlank d.nameGap.blank,
    isSimple_of_isWord d.name.isIdentifier.isWord⟩

theorem unbroken_text : Unbroken d.text := fun c hc => (d.isSimple_text c hc).1

theorem words_afterAccess {rest : List Char} (hrest : ∀ c ∈ rest, isBlank c = true) :
    Text.words (d.afterAccess ++ rest) = d.words := by
  have hname : Text.words (d.name.text ++ rest) = [d.name.text] :=
    words_append_blanks d.name.isIdentifier.ne_nil
      (fun c hc => isBlank_of_isWord (d.name.isIdentifier.isWord c hc)) hrest
  rw [afterAccess, List.append_assoc, List.append_assoc, List.append_assoc,
    d.isLead.words_append isIdentifier_modifiers, words_append_gap d.nameGap.ne_nil d.nameGap.blank,
    hname, words, List.append_assoc, List.map_map]
  rfl

/-! ## Recognizing a declarator -/

def phrase (tail : List Char) (initializer : Option (List Char)) : Member.Phrase :=
  ⟨d.access.toList, d.lead, d.type.text, d.nameGap.text, d.name.text, tail, initializer⟩

theorem declarator_phrase (tail : List Char) (initializer : Option (List Char)) :
    (d.phrase tail initializer).declarator = d.afterAccess := by
  simp [phrase, Member.Phrase.declarator, afterAccess]

theorem text_phrase (tail : List Char) (initializer : Option (List Char)) :
    (d.phrase tail initializer).text = d.text ++ tail := by
  rw [Member.Phrase.text, declarator_phrase]
  rfl

theorem endsType {m : Char} {ending : List Char} (hending : BreaksWith m ending) :
    EndsType (d.nameGap.text ++ (d.name.text ++ ending)) :=
  endsType_gap_name d.nameGap.ne_nil d.nameGap.blank d.name.isIdentifier
    hending.startsWithBreak.not_mem_closing

theorem leads_lead {rest : List Char} (hrest : ∀ c ∈ rest.head?, isWord c = false) :
    ∃ others, leads Language.modifiers (d.lead ++ (d.type.text ++ rest)) =
      (d.lead, d.type.text ++ rest) :: others :=
  leads_append prefixFree_modifiers isIdentifier_modifiers d.isLead
    (TypeText.endsLead isIdentifier_modifiers d.type_free hrest)

/-- A type starts with a name, so no type parameters are read in front of it. -/
theorem methodLeads_lead {rest : List Char} (hrest : ∀ c ∈ rest.head?, isWord c = false) :
    ∃ others, Member.methodLeads Language.modifiers (d.lead ++ (d.type.text ++ rest)) =
      (d.lead, d.type.text ++ rest) :: others := by
  obtain ⟨others, hfirst⟩ := d.leads_lead hrest
  have hnone : arguments (d.type.text ++ rest) = [] := arguments_eq_nil fun c hc => by
    rintro rfl
    exact absurd (d.type.head rest '<' hc) (by decide +kernel)
  rw [Member.methodLeads, hfirst, List.flatMap_cons]
  simp only [hnone, List.map_nil, List.nil_append, List.cons_append]
  exact ⟨_, rfl⟩

/-- A form reads a declarator in its parts, whenever it accepts what follows. -/
def IsReadBy (form : Member.Form) : Prop :=
  ∀ m ending tail initializer, BreaksWith m ending → form.tail ending = some (tail, initializer) →
    form.recognize (d.text ++ ending) = some (d.phrase tail initializer)

theorem isReadBy {form : Member.Form} (hfree : PrefixFree form.access)
    (haccess : d.access ∈ form.access)
    (hleads : ∀ rest, (∀ c ∈ rest.head?, isWord c = false) →
      ∃ others, form.leads (d.lead ++ (d.type.text ++ rest)) =
        (d.lead, d.type.text ++ rest) :: others)
    (htypes : ∀ rest, EndsType rest →
      ∃ others, form.types (d.type.text ++ rest) = (d.type.text, rest) :: others) :
    d.IsReadBy form := by
  intro m ending tail initializer hending htail
  have htype := d.endsType hending
  have hgap : ∀ c ∈ (d.nameGap.text ++ (d.name.text ++ ending)).head?, isWord c = false :=
    fun c hc => (Bool.or_eq_false_iff.mp (htype.head c hc).1).1
  rw [text, afterAccess, List.append_assoc, List.append_assoc, List.append_assoc, List.append_assoc]
  exact Member.Form.recognize_append hfree haccess (hleads _ hgap) (htypes _ htype) d.nameGap.ne_nil
    d.nameGap.blank d.name.isIdentifier hending.startsWithBreak.head htail

theorem isReadBy_fieldForm : d.IsReadBy (Member.fieldForm language) :=
  d.isReadBy (prefixFree_accessKeywords language) d.access_mem (fun _ => d.leads_lead)
    fun _ => types_append d.type.isType

theorem isReadBy_methodForm : d.IsReadBy (Member.methodForm language) :=
  d.isReadBy (prefixFree_accessKeywords language) d.access_mem (fun _ => d.methodLeads_lead)
    fun _ => types_append d.type.isType

theorem isReadBy_propertyForm : d.IsReadBy (Member.propertyForm language) :=
  d.isReadBy (prefixFree_accessKeywords language) d.access_mem (fun _ => d.leads_lead)
    fun _ => types_append d.type.isType

/-- A form is recognized nowhere in a declarator that is followed by another character than the
form asks for. -/
theorem isQuiet {form : Member.Form} {ends : List Char} (hform : form.Breaks ends) {m : Char}
    (hm : m ∉ ends) {ending : List Char} (hending : BreaksWith m ending) (before : Option Char) :
    IsQuiet form.recognize before d.text ending := by
  rintro front back ⟨hparts, _⟩ _
  -- From any place on, the first breaking character is the one behind the declarator.
  cases hread : form.recognize (back ++ ending) with
  | none => rfl
  | some p =>
      obtain ⟨e, he, hfind⟩ := hform.find? hread
      have hback : Unbroken back := fun c hc =>
        d.unbroken_text c (by rw [hparts]; exact List.mem_append_right _ hc)
      rw [find?_unbroken_append hback, hending.find?] at hfind
      obtain rfl := Option.some.inj hfind
      exact absurd he hm

end Declarator

end ClassDiagram.Printed
