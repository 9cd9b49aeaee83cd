import ClassDiagram.Proofs.Header.BaseList
import ClassDiagram.Proofs.Printed.Class
import ClassDiagram.Proofs.Printed.JavaHeader

/-!
# C# headers as they are written

Type parameters, parameters of a constructor, a list of base types after a colon, and constraints
that start with `where`, in this order; each of them may be missing. A base type has a qualified
name, and perhaps arguments of the type and of its constructor. The base list found in such a header
is the one that it is made of.
-/

namespace ClassDiagram.Printed

open Text Source

/-! ## The parts of a header -/

/-- Brackets of a kind and what stands between them. -/
structure Enclosed (opening closing : Char) where
  gap : Blanks
  inner : List Char
  paired : IsPaired inner

def Enclosed.text {opening closing : Char} (e : Enclosed opening closing) : List Char :=
  e.gap.text ++ opening :: (e.inner ++ [closing])

/-- The text of brackets that may be missing. -/
def enclosedText {opening closing : Char} (e : Option (Enclosed opening closing)) : List Char :=
  e.elim [] (·.text)

/-- A type in a base list, with the white space around it. -/
structure BaseItem where
  before : Blanks
  name : QualifiedName
  arguments : Option (Enclosed '<' '>')
  construction : Option (Enclosed '(' ')')
  after : Blanks

namespace BaseItem

def suffix (item : BaseItem) : List Char :=
  enclosedText item.arguments ++ enclosedText item.construction

/-- A type without the white space around it. -/
def core (item : BaseItem) : List Char := item.name.text ++ item.suffix

def text (item : BaseItem) : List Char := item.before.text ++ (item.core ++ item.after.text)

end BaseItem

/-- Types with commas between them. -/
structure BaseItems where
  first : BaseItem
  others : List BaseItem

def BaseItems.items (list : BaseItems) : List BaseItem := list.first :: list.others

def BaseItems.text (list : BaseItems) : List Char :=
  list.first.text ++ list.others.flatMap (',' :: ·.text)

/-- What is asked of a type parameter. -/
structure Constraint where
  gap : Gap
  parameter : Identifier
  afterParameter : Blanks
  bounds : List Char
  paired : IsPaired bounds

def Constraint.afterWhere (c : Constraint) : List Char :=
  c.gap.text ++ (c.parameter.text ++ (c.afterParameter.text ++ ':' :: c.bounds))

def Constraint.text (c : Constraint) : List Char := "where".toList ++ c.afterWhere

/-- The parts of a header, without what keeps them apart. -/
structure CSharpParts where
  parameters : Option (Enclosed '<' '>')
  construction : Option (Enclosed '(' ')')
  gap : Blanks
  bases : Option BaseItems
  constraints : List Constraint

namespace CSharpParts

/-- What stands in front of the colon. -/
def beforeBases (parts : CSharpParts) : List Char :=
  enclosedText parts.parameters ++ (enclosedText parts.construction ++ parts.gap.text)

/-- What stands in front of the constraints. -/
def front (parts : CSharpParts) : List Char :=
  parts.beforeBases ++ parts.bases.elim [] (':' :: ·.text)

def text (parts : CSharpParts) : List Char := parts.front ++ parts.constraints.flatMap (·.text)

end CSharpParts

/-- What stands between the name of a C# class and its body. The word `where` stands only at the
head of a constraint. -/
structure CSharpHeader extends CSharpParts where
  allowed : ∀ c ∈ toCSharpParts.text, isPlain c = true ∧ c ∉ [';', '{', '}']
  starts : endsWord toCSharpParts.text = true
  free : mentions ["where"] none toCSharpParts.front = false
  apart : constraints ≠ [] → EndsApart toCSharpParts.front

/-! ## Brackets in a header -/

theorem isPaired_of_isBlank {cs : List Char} (h : ∀ c ∈ cs, isBlank c = true) : IsPaired cs :=
  isPaired_of_forall fun c hc => not_mem_of_apply (by decide) (h c hc)

theorem isPaired_of_isWord {cs : List Char} (h : ∀ c ∈ cs, isWord c = true) : IsPaired cs :=
  isPaired_of_forall fun c hc => not_mem_of_apply (by decide +kernel) (h c hc)

theorem QualifiedName.isPaired (name : QualifiedName) : IsPaired name.text :=
  isPaired_of_forall fun c hc =>
    not_mem_of_apply (by decide +kernel) (name.isName.isQualified c hc)

section Enclosed

variable {opening closing : Char} (hpair : (opening, closing) ∈ pairs)

include hpair

theorem isPaired_enclosedText (e : Option (Enclosed opening closing)) :
    IsPaired (enclosedText e) := by
  cases e with
  | none => exact isPaired_of_forall fun c hc => absurd hc List.not_mem_nil
  | some e => exact (isPaired_of_isBlank e.gap.blank).append (e.paired.enclose hpair)

/-- Neither a list of types nor the search for the colon stops between brackets. -/
theorem undivided_enclosedText (e : Option (Enclosed opening closing)) :
    TypeList.Undivided (enclosedText e) := by
  cases e with
  | none => exact TypeList.undivided_nil
  | some e =>
      refine TypeList.Undivided.append ?_ (TypeList.undivided_enclose hpair e.paired)
      exact TypeList.undivided_of_forall fun c hc => not_mem_of_apply (by decide) (e.gap.blank c hc)

theorem colonless_enclosedText (e : Option (Enclosed opening closing)) :
    Header.Colonless (enclosedText e) := by
  cases e with
  | none => exact Header.colonless_nil
  | some e =>
      refine Header.Colonless.append ?_ (Header.colonless_enclose hpair e.paired)
      exact Header.colonless_of_forall fun c hc =>
        not_mem_of_apply (by decide) (e.gap.blank c hc)

/-- Brackets do not end with white space, and an opening bracket ends the name in front of it. -/
theorem Enclosed.exists_args (e : Enclosed opening closing) (rest : List Char)
    (hrest : ∀ c ∈ rest.getLast?, isBlank c = false) : ∃ gap args,
      (∀ c ∈ gap, isBlank c = true) ∧ e.text ++ rest = gap ++ args ∧
        (∀ c ∈ args.head?, TypeList.endsName c = true) ∧
        ∀ c ∈ (gap ++ args).getLast?, isBlank c = false := by
  refine ⟨e.gap.text, opening :: (e.inner ++ closing :: rest), e.gap.blank, ?_, ?_, ?_⟩
  · simp [text]
  · refine forall_mem_head_cons ?_ _
    rcases mem_pairs hpair with ⟨rfl, rfl⟩ | ⟨rfl, rfl⟩ <;> decide
  · intro c hc
    by_cases hnil : rest = []
    · obtain rfl : closing = c := by simpa [hnil, List.getLast?_cons] using hc
      rcases mem_pairs hpair with ⟨rfl, rfl⟩ | ⟨rfl, rfl⟩ <;> decide
    · apply hrest c
      rw [List.getLast?_append_of_ne_nil _ (by simp), ← List.cons_append,
        List.getLast?_append_of_ne_nil _ (by simp), List.getLast?_cons_of_ne_nil hnil] at hc
      exact hc

end Enclosed

/-! ## Types in a base list -/

namespace BaseItem

variable (item : BaseItem)

theorem isPaired : IsPaired item.text := by
  refine (isPaired_of_isBlank item.before.blank).append
    ((item.name.isPaired.append ?_).append (isPaired_of_isBlank item.after.blank))
  exact (isPaired_enclosedText (by decide) _).append (isPaired_enclosedText (by decide) _)

/-- A list is not divided inside a type. -/
theorem undivided : TypeList.Undivided item.text := by
  have hblank : ∀ gap : Blanks, TypeList.Undivided gap.text := fun gap =>
    TypeList.undivided_of_forall fun c hc => not_mem_of_apply (by decide) (gap.blank c hc)
  have hname : TypeList.Undivided item.name.text := TypeList.undivided_of_forall fun c hc =>
    not_mem_of_apply (by decide +kernel) (item.name.isName.isQualified c hc)
  refine (hblank item.before).append ((hname.append ?_).append (hblank item.after))
  exact (undivided_enclosedText (by decide) _).append (undivided_enclosedText (by decide) _)

theorem exists_args : ∃ gap args, (∀ c ∈ gap, isBlank c = true) ∧ item.suffix = gap ++ args ∧
    (∀ c ∈ args.head?, TypeList.endsName c = true) ∧
    ∀ c ∈ (gap ++ args).getLast?, isBlank c = false := by
  have hconstruction : ∃ gap args, (∀ c ∈ gap, isBlank c = true) ∧
      enclosedText item.construction = gap ++ args ∧
      (∀ c ∈ args.head?, TypeList.endsName c = true) ∧
      ∀ c ∈ (gap ++ args).getLast?, isBlank c = false := by
    cases item.construction with
    | none => exact ⟨[], [], List.forall_mem_nil _, rfl, by simp, by simp⟩
    | some e =>
        obtain ⟨gap, args, hgap, hparts, hhead, hlast⟩ := e.exists_args (by decide) [] (by simp)
        exact ⟨gap, args, hgap, (List.append_nil _).symm.trans hparts, hhead, hlast⟩
  rw [suffix]
  cases item.arguments with
  | none => exact hconstruction
  | some e =>
      obtain ⟨gap, args, _, hparts, _, hlast⟩ := hconstruction
      rw [← hparts] at hlast
      exact e.exists_args (by decide) _ hlast

/-- The entry of a list that a type makes up. -/
theorem trim_text : trim item.text = item.core := by
  obtain ⟨gap, args, _, hparts, _, hlast⟩ := item.exists_args
  rw [← hparts] at hlast
  exact TypeList.trim_type item.name.isName.ne_nil item.name.isName.isQualified hlast
    item.before.blank item.after.blank

theorem simpleName_core : TypeList.simpleName item.core = item.name.last.text := by
  obtain ⟨gap, args, hgap, hparts, hhead, hlast⟩ := item.exists_args
  rw [core, hparts]
  exact item.name.simpleName_append hgap hhead hlast

end BaseItem

namespace BaseItems

variable (list : BaseItems)

theorem split_text : TypeList.split list.text = list.items.map (·.core) :=
  TypeList.split_entries BaseItem.undivided BaseItem.trim_text fun item => by
    simp [BaseItem.core, item.name.isName.ne_nil]

theorem isPaired : IsPaired list.text := by
  apply list.first.isPaired.append
  induction list.others with
  | nil => exact isPaired_of_forall fun c hc => absurd hc List.not_mem_nil
  | cons item others ih =>
      have hcomma : IsPaired [','] := by decide
      exact (hcomma.append item.isPaired).append ih

end BaseItems

/-! ## The base list of a header -/

theorem Constraint.isPaired (c : Constraint) : IsPaired c.text := by
  have hwhere : IsPaired "where".toList := by decide
  have hcolon : IsPaired [':'] := by decide
  refine hwhere.append ((isPaired_of_isBlank c.gap.blank).append ?_)
  refine (isPaired_of_isWord c.parameter.isIdentifier.isWord).append ?_
  exact (isPaired_of_isBlank c.afterParameter.blank).append (hcolon.append c.paired)

namespace CSharpParts

variable (parts : CSharpParts)

theorem isPaired_front : IsPaired parts.front := by
  refine IsPaired.append ?_ ?_
  · exact (isPaired_enclosedText (by decide) _).append
      ((isPaired_enclosedText (by decide) _).append (isPaired_of_isBlank parts.gap.blank))
  · cases parts.bases with
    | none => exact isPaired_of_forall fun c hc => absurd hc List.not_mem_nil
    | some list =>
        have hcolon : IsPaired [':'] := by decide
        exact hcolon.append list.isPaired

theorem isPaired : IsPaired parts.text := by
  apply parts.isPaired_front.append
  induction parts.constraints with
  | nil => exact isPaired_of_forall fun c hc => absurd hc List.not_mem_nil
  | cons c constraints ih => exact c.isPaired.append ih

theorem colonless_beforeBases : Header.Colonless parts.beforeBases := by
  have hgap : Header.Colonless parts.gap.text := Header.colonless_of_forall fun c hc =>
    not_mem_of_apply (by decide) (parts.gap.blank c hc)
  exact (colonless_enclosedText (by decide) _).append
    ((colonless_enclosedText (by decide) _).append hgap)

/-- The colon found in front of the constraints is that of the base list. -/
theorem colonFrom_front : Header.colonFrom 0 0 parts.front =
    parts.bases.map fun list => (byteLength parts.beforeBases, ':' :: list.text) := by
  rw [front]
  cases parts.bases with
  | none =>
      rw [Option.elim_none, List.append_nil]
      exact parts.colonless_beforeBases.colonFrom_eq_none
  | some list => exact parts.colonless_beforeBases.colonFrom_colon list.text

end CSharpParts

namespace CSharpHeader

variable (header : CSharpHeader)

def heading : Heading := ⟨header.text, header.allowed, header.isPaired.parentheses, header.starts⟩

theorem constraintsStart_text : Header.constraintsStart header.text = byteLength header.front := by
  rw [CSharpParts.text]
  cases hconstraints : header.constraints with
  | nil =>
      rw [List.flatMap_nil, List.append_nil]
      exact Header.constraintsStart_of_free header.free
  | cons c constraints =>
      have hapart := header.apart (by simp [hconstraints])
      rw [List.flatMap_cons, Constraint.text, List.append_assoc]
      apply Header.constraintsStart_append header.free header.isPaired_front hapart
      rw [Constraint.afterWhere, List.append_assoc]
      exact forall_mem_head_gap isWord_of_isBlank c.gap.ne_nil c.gap.blank _

/-- The base list found in a header is the one that it is made of. -/
theorem csharpBases_text : Header.csharpBases header.text =
    header.bases.map fun list =>
      ⟨[':'], byteLength header.beforeBases, list.items.map (·.core)⟩ := by
  rw [Header.csharpBases, header.constraintsStart_text]
  rw [show takeBytes (byteLength header.front) header.text = header.front from takeBytes_append _ _,
    header.colonFrom_front, Option.bind_eq_bind]
  cases header.bases with
  | none => rfl
  | some list =>
      simp only [Option.map_some, Option.bind_some, List.tail_cons, list.split_text]

end CSharpHeader

end ClassDiagram.Printed
