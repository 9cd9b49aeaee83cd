import ClassDiagram.Proofs.Header.Keywords
import ClassDiagram.Proofs.Header.TypeList
import ClassDiagram.Proofs.Printed.Declarator

/-!
# Java headers as they are written

Type parameters, and then lists of base types after `extends`, `implements` and `permits`, in this
order. A type has a qualified name in which no header keyword stands, and any arguments; keywords
may stand in the arguments. The clauses found in such a header are the lists that it is made of.
-/

namespace ClassDiagram.Printed

open Text Source

/-! ## The parts of a header -/

structure BaseArguments extends Brackets where
  unparenthesized : ∀ c ∈ inner, c ≠ '(' ∧ c ≠ ')'

/-- A type in a base clause, with the white space around it. -/
structure BaseType where
  before : Blanks
  name : QualifiedName
  free : mentions Header.keywords none name.text = false
  arguments : Option BaseArguments
  after : Blanks

def BaseType.argumentsText (type : BaseType) : List Char := type.arguments.elim [] (·.text)

/-- A type without the white space around it. -/
def BaseType.core (type : BaseType) : List Char := type.name.text ++ type.argumentsText

def BaseType.text (type : BaseType) : List Char :=
  type.before.text ++ (type.core ++ type.after.text)

/-- Types with commas between them. White space keeps the first apart from a keyword. -/
structure BaseList where
  first : BaseType
  others : List BaseType
  apart : first.before.text ≠ []

def BaseList.types (list : BaseList) : List BaseType := list.first :: list.others

def BaseList.text (list : BaseList) : List Char :=
  list.first.text ++ list.others.flatMap (',' :: ·.text)

/-- A list of types after a header keyword. -/
structure BaseClause where
  keyword : String
  mem : keyword ∈ Header.keywords
  list : BaseList

def BaseClause.text (clause : BaseClause) : List Char := clause.keyword.toList ++ clause.list.text

def javaClauses (extended implemented permitted : Option BaseList) : List BaseClause :=
  extended.toList.map (⟨"extends", by decide, ·⟩) ++
    (implemented.toList.map (⟨"implements", by decide, ·⟩) ++
      permitted.toList.map (⟨"permits", by decide, ·⟩))

/-- A text after which a word may start. -/
def EndsApart (cs : List Char) : Prop := startsWord (lastOf none cs) = true

instance : DecidablePred EndsApart := fun _ => inferInstanceAs (Decidable (_ = _))

/-- Only the last part of a text matters for what may start after it. -/
theorem endsApart_append_iff (a : List Char) {b : List Char} (hne : b ≠ []) :
    EndsApart (a ++ b) ↔ EndsApart b := by
  rw [EndsApart, EndsApart, lastOf_append, lastOf_congr hne _ none]

/-- What stands between the name of a Java class and its body. -/
structure JavaHeader where
  parameters : Option Brackets
  leading : Blanks
  extended : Option BaseList
  implemented : Option BaseList
  permitted : Option BaseList
  apart : ∀ clause ∈ (javaClauses extended implemented permitted).dropLast,
    EndsApart clause.list.text

def JavaHeader.clauses (header : JavaHeader) : List BaseClause :=
  javaClauses header.extended header.implemented header.permitted

def JavaHeader.parametersText (header : JavaHeader) : List Char :=
  header.parameters.elim [] (·.text)

def JavaHeader.text (header : JavaHeader) : List Char :=
  header.parametersText ++ (header.leading.text ++ header.clauses.flatMap (·.text))

/-! ## Types in a list -/

theorem isBalanced_of_isQualified {cs : List Char} (h : ∀ c ∈ cs, isQualified c = true) :
    IsBalanced '<' '>' cs := by
  apply isBalanced_of_forall_ne
  intro c hc
  have hqualified := h c hc
  constructor <;> rintro rfl <;> exact absurd hqualified (by decide +kernel)

theorem isBalanced_of_isBlank {cs : List Char} (h : ∀ c ∈ cs, isBlank c = true) :
    IsBalanced '<' '>' cs := by
  apply isBalanced_of_forall_ne
  intro c hc
  have hblank := h c hc
  constructor <;> rintro rfl <;> exact absurd hblank (by decide)

theorem Brackets.isBalanced (brackets : Brackets) : IsBalanced '<' '>' brackets.text :=
  (isBalanced_of_isBlank brackets.gap.blank).append (brackets.balanced.enclose (by decide))

theorem QualifiedName.simpleName_append (name : QualifiedName) {gap args : List Char}
    (hgap : ∀ c ∈ gap, isBlank c = true) (hstart : ∀ c ∈ args.head?, TypeList.endsName c = true)
    (hend : ∀ c ∈ (gap ++ args).getLast?, isBlank c = false) :
    TypeList.simpleName (name.text ++ (gap ++ args)) = name.last.text := by
  have hdot : '.' ∉ name.last.text := fun hmem =>
    absurd (name.last.isIdentifier.isWord '.' hmem) (by decide +kernel)
  refine TypeList.simpleName_append ?_ name.isName.ne_nil name.isName.isQualified hdot hgap hstart
    hend
  cases hlast : name.qualifier.reverse with
  | nil => exact .inl (by rw [List.reverse_eq_nil_iff.mp hlast]; rfl)
  | cons part parts =>
      refine .inr ?_
      rw [List.reverse_eq_cons_iff.mp hlast]
      simp

namespace BaseType

variable (type : BaseType)

theorem isBalanced : IsBalanced '<' '>' type.text := by
  refine (isBalanced_of_isBlank type.before.blank).append
    (((isBalanced_of_isQualified type.name.isName.isQualified).append ?_).append
      (isBalanced_of_isBlank type.after.blank))
  rw [argumentsText]
  cases type.arguments with
  | none => rfl
  | some arguments => exact arguments.isBalanced

/-- A list is not divided inside a type. -/
theorem undivided : TypeList.Undivided type.text := by
  have hblank : ∀ {gap : List Char}, (∀ c ∈ gap, isBlank c = true) → TypeList.Undivided gap := by
    intro gap hgap
    exact TypeList.undivided_of_forall fun c hc => not_mem_of_apply (by decide) (hgap c hc)
  have hname : TypeList.Undivided type.name.text := TypeList.undivided_of_forall fun c hc =>
    not_mem_of_apply (by decide +kernel) (type.name.isName.isQualified c hc)
  refine (hblank type.before.blank).append ((hname.append ?_).append (hblank type.after.blank))
  rw [argumentsText]
  cases type.arguments with
  | none => exact TypeList.undivided_nil
  | some arguments =>
      exact (hblank arguments.gap.blank).append
        (TypeList.undivided_enclose (by decide)
          (isPaired_of_balanced arguments.unparenthesized arguments.balanced))

theorem argumentsText_cases : type.argumentsText = [] ∨ ∃ gap inner,
    (∀ c ∈ gap, isBlank c = true) ∧ type.argumentsText = gap ++ '<' :: (inner ++ ['>']) := by
  rw [argumentsText]
  cases type.arguments with
  | none => exact .inl rfl
  | some arguments => exact .inr ⟨_, _, arguments.gap.blank, rfl⟩

theorem argumentsText_last : ∀ c ∈ type.argumentsText.getLast?, isBlank c = false := by
  rcases type.argumentsText_cases with hargs | ⟨gap, inner, _, hargs⟩
  · simp [hargs]
  · intro c hc
    obtain rfl : '>' = c := by simpa [hargs, List.getLast?_cons] using hc
    decide

/-- The entry of a list that a type makes up. -/
theorem trim_text : trim type.text = type.core :=
  TypeList.trim_type type.name.isName.ne_nil type.name.isName.isQualified type.argumentsText_last
    type.before.blank type.after.blank

theorem simpleName_core : TypeList.simpleName type.core = type.name.last.text := by
  have hlast := type.argumentsText_last
  obtain ⟨gap, args, hgap, hargs, hstart⟩ : ∃ gap args, (∀ c ∈ gap, isBlank c = true) ∧
      type.argumentsText = gap ++ args ∧ ∀ c ∈ args.head?, TypeList.endsName c = true := by
    rcases type.argumentsText_cases with hargs | ⟨gap, inner, hgap, hargs⟩
    · exact ⟨[], [], List.forall_mem_nil _, hargs, by simp⟩
    · exact ⟨gap, _, hgap, hargs, forall_mem_head_cons (by decide) _⟩
  rw [hargs] at hlast
  rw [core, hargs]
  exact type.name.simpleName_append hgap hstart hlast

end BaseType

theorem BaseList.split_text (list : BaseList) :
    TypeList.split list.text = list.types.map (·.core) :=
  TypeList.split_entries BaseType.undivided BaseType.trim_text fun type => by
    simp [BaseType.core, type.name.isName.ne_nil]

/-! ## Keywords in a list -/

theorem isNested_of_not_isWord {cs : List Char} (h : ∀ c ∈ cs, isWord c = false)
    (before : Option Char) (depth : Int) (rest : List Char) :
    Header.IsNested ['<'] ['>'] before depth cs rest :=
  Header.isNested_of_quiet (isQuiet_of_not_isWord Header.opensWith_keyword?
    Header.isIdentifier_keywords h before rest) depth

theorem isNested_blanks {gap : List Char} (hgap : ∀ c ∈ gap, isBlank c = true)
    (before : Option Char) (depth : Int) (rest : List Char) :
    Header.IsNested ['<'] ['>'] before depth gap rest :=
  isNested_of_not_isWord (fun c hc => isWord_of_isBlank (hgap c hc)) before depth rest

/-- The keywords in arguments stand between brackets. -/
theorem Brackets.isNested (brackets : Brackets) (before : Option Char) {depth : Int}
    (hdepth : 0 ≤ depth) (rest : List Char) :
    Header.IsNested ['<'] ['>'] before depth brackets.text rest := by
  have hgap := nesting_of_balanced (isBalanced_of_isBlank brackets.gap.blank)
  have hopening : nesting ['<'] ['>'] ['<'] = 1 := by decide
  refine (isNested_blanks brackets.gap.blank before depth _).append ?_
  refine Header.IsNested.append (a := ['<'])
    (isNested_of_not_isWord (by decide +kernel) _ _ _) ?_
  refine (Header.isNested_inner brackets.balanced _ (by omega) rest).append ?_
  exact isNested_of_not_isWord (by decide +kernel) _ _ _

namespace BaseType

variable (type : BaseType)

theorem endsApart_or {rest : List Char}
    (h : EndsApart type.text ∨ ∀ c ∈ rest.head?, isWord c = false) :
    ∀ c ∈ (type.argumentsText ++ (type.after.text ++ rest)).head?, isWord c = false := by
  intro c hc
  rcases type.argumentsText_cases with hargs | ⟨gap, inner, hgap, hargs⟩
  · rw [hargs, List.nil_append] at hc
    cases hafter : type.after.text with
    | nil =>
        rw [hafter, List.nil_append] at hc
        refine h.elim (fun hapart => ?_) fun hrest => hrest c hc
        -- Nothing stands between the name and `rest`, so the text ends inside a word.
        have hlast := type.name.last.isIdentifier
        obtain ⟨d, hd⟩ := Option.ne_none_iff_exists'.mp
          (mt List.getLast?_eq_none_iff.mp hlast.ne_nil)
        have hword := hlast.isWord d (List.mem_of_getLast? hd)
        simp [EndsApart, text, core, hargs, hafter, QualifiedName.text, lastOf, hd, startsWord,
          hword] at hapart
    | cons d after =>
        rw [hafter] at hc
        obtain rfl := Option.some.inj hc
        exact isWord_of_isBlank (type.after.blank d (by simp [hafter]))
  · rw [hargs, List.append_assoc] at hc
    exact forall_mem_head_blanks isWord_of_isBlank hgap (by decide +kernel) _ c hc

/-- In a type, header keywords stand between brackets only. -/
theorem isNested {before : Option Char}
    (hbefore : startsWord (lastOf before type.before.text) = true) {rest : List Char}
    (hrest : EndsApart type.text ∨ ∀ c ∈ rest.head?, isWord c = false) :
    Header.IsNested ['<'] ['>'] before 0 type.text rest := by
  have hblanks := nesting_of_balanced (isBalanced_of_isBlank type.before.blank)
  have hname := nesting_of_balanced (isBalanced_of_isQualified type.name.isName.isQualified)
  have hfollowing := type.endsApart_or hrest
  refine (isNested_blanks type.before.blank before 0 _).append ?_
  refine Header.IsNested.append ?_ (isNested_blanks type.after.blank _ _ rest)
  refine Header.IsNested.append (Header.isNested_of_quiet (isQuiet_of_not_mentions
    Header.opensWith_keyword? Header.isIdentifier_keywords ?_ hfollowing) _) ?_
  · rw [mentions_congr (show startsWord _ = startsWord none from hbefore), type.free]
  · rw [argumentsText]
    cases type.arguments with
    | none => exact Header.isNested_of_quiet isQuiet_nil _
    | some arguments => exact arguments.isNested _ (by omega) _

theorem text_ne_nil : type.text ≠ [] := by simp [text, core, type.name.isName.ne_nil]

end BaseType

theorem isNested_types {type : BaseType} {others : List BaseType} {before : Option Char}
    (hbefore : startsWord (lastOf before type.before.text) = true) {rest : List Char}
    (hrest : EndsApart (type.text ++ others.flatMap (',' :: ·.text)) ∨
      ∀ c ∈ rest.head?, isWord c = false) :
    Header.IsNested ['<'] ['>'] before 0 (type.text ++ others.flatMap (',' :: ·.text)) rest := by
  induction others generalizing type before with
  | nil =>
      rw [List.flatMap_nil, List.append_nil] at hrest ⊢
      exact type.isNested hbefore hrest
  | cons next others ih =>
      have hcomma : startsWord (lastOf (some ',') next.before.text) = true :=
        startsWord_lastOf_blanks (by decide +kernel) next.before.blank
      have hlast : EndsApart (next.text ++ others.flatMap (',' :: ·.text)) ∨
          ∀ c ∈ rest.head?, isWord c = false := by
        apply hrest.imp_left
        intro hapart
        have hne : next.text ++ others.flatMap (',' :: ·.text) ≠ [] := by simp [next.text_ne_nil]
        rw [List.flatMap_cons, List.cons_append, List.append_cons] at hapart
        exact (endsApart_append_iff _ hne).mp hapart
      have hnesting := nesting_of_balanced type.isBalanced
      have hmark : nesting ['<'] ['>'] [','] = 0 := by decide
      rw [List.flatMap_cons]
      have hend := type.isNested hbefore (.inr (forall_mem_head_cons (c := ',') (by decide +kernel)
        ((next.text ++ others.flatMap (',' :: ·.text)) ++ rest)))
      refine hend.append (Header.IsNested.append (a := [','])
        (isNested_of_not_isWord (by decide +kernel) _ _ _) ?_)
      rw [hnesting, hmark]
      exact ih hcomma hlast

namespace BaseList

variable (list : BaseList)

theorem isNested (before : Option Char) {rest : List Char}
    (hrest : EndsApart list.text ∨ ∀ c ∈ rest.head?, isWord c = false) :
    Header.IsNested ['<'] ['>'] before 0 list.text rest :=
  isNested_types (startsWord_lastOf_gap list.apart list.first.before.blank before) hrest

theorem text_ne_nil : list.text ≠ [] := by simp [text, list.first.text_ne_nil]

theorem isBalanced : IsBalanced '<' '>' list.text := by
  apply list.first.isBalanced.append
  induction list.others with
  | nil => rfl
  | cons type others ih => exact (type.isBalanced.cons (by decide) (by decide)).append ih

/-- White space keeps a list apart from what stands in front of it. -/
theorem head (rest : List Char) : ∀ c ∈ (list.text ++ rest).head?, isWord c = false := by
  rw [text, BaseType.text, List.append_assoc, List.append_assoc]
  exact forall_mem_head_gap isWord_of_isBlank list.apart list.first.before.blank _

end BaseList

/-! ## The clauses of a header -/

/-- Clauses one after the other from a byte offset on, each with its offset. -/
def placedClauses (offset : Nat) : List BaseClause → List (Nat × BaseClause)
  | [] => []
  | c :: cs => (offset, c) :: placedClauses (offset + byteLength c.text) cs

theorem placedClauses_add (shift offset : Nat) (clauses : List BaseClause) :
    placedClauses (shift + offset) clauses =
      (placedClauses offset clauses).map fun (o, c) => (shift + o, c) := by
  induction clauses generalizing offset with
  | nil => rfl
  | cons c cs ih => rw [placedClauses, placedClauses, List.map_cons, Nat.add_assoc, ih]

/-- Clauses stand in order, in the text that they make up. -/
theorem pairwise_placedClauses (offset : Nat) (clauses : List BaseClause) :
    (placedClauses offset clauses).Pairwise (fun a b => a.1 ≤ b.1) ∧
      ∀ a ∈ placedClauses offset clauses,
        offset ≤ a.1 ∧ a.1 ≤ offset + byteLength (clauses.flatMap (·.text)) := by
  induction clauses generalizing offset with
  | nil => exact ⟨.nil, fun a ha => absurd ha List.not_mem_nil⟩
  | cons c cs ih =>
      obtain ⟨hpairwise, hbounds⟩ := ih (offset + byteLength c.text)
      refine ⟨List.pairwise_cons.mpr ⟨fun a ha => ?_, hpairwise⟩, fun a ha => ?_⟩
      · exact Nat.le_trans (Nat.le_add_right _ _) (hbounds a ha).1
      · rw [List.flatMap_cons, byteLength_append]
        rcases List.mem_cons.mp ha with rfl | ha
        · exact ⟨Nat.le_refl _, Nat.le_add_right _ _⟩
        · have := hbounds a ha
          omega

/-- A keyword that opens a clause stands outside all brackets. -/
theorem BaseClause.nesting_text (clause : BaseClause) : nesting ['<'] ['>'] clause.text = 0 := by
  have hkeyword := (Header.isIdentifier_keywords clause.keyword clause.mem).isWord
  have hqualified : ∀ c ∈ clause.keyword.toList, isQualified c = true := by
    intro c hc
    rw [isQualified, hkeyword c hc, Bool.true_or]
  exact nesting_of_balanced ((isBalanced_of_isQualified hqualified).append clause.list.isBalanced)

/-- The top keywords of clauses are those that open them. -/
theorem topFrom_clauses {clauses : List BaseClause}
    (hapart : ∀ clause ∈ clauses.dropLast, EndsApart clause.list.text) {front : List Char}
    (hfront : nesting ['<'] ['>'] front = 0) (hstart : clauses ≠ [] → EndsApart front) :
    Header.topFrom ['<'] ['>'] front (clauses.flatMap (·.text)) =
      (placedClauses (byteLength front) clauses).map fun (o, c) => (o, c.keyword.toList) := by
  -- Between two clauses the header is outside all brackets, and a word may start there.
  induction clauses generalizing front with
  | nil => rfl
  | cons clause clauses ih =>
      have hnesting := clause.nesting_text
      have hkeyword : nesting ['<'] ['>'] (front ++ clause.keyword.toList) = 0 := by
        have hlist := nesting_of_balanced clause.list.isBalanced
        rw [BaseClause.text, nesting_append, hlist] at hnesting
        rw [nesting_append]
        omega
      have hlast : clauses ≠ [] → EndsApart clause.list.text := fun hne =>
        hapart clause (by rw [List.dropLast_cons_of_ne_nil hne]; exact List.mem_cons_self)
      have hnested : Header.IsNested ['<'] ['>'] (lastOf none (front ++ clause.keyword.toList)) 0
          clause.list.text (clauses.flatMap (·.text)) := by
        apply clause.list.isNested _
        cases clauses with
        | nil => exact .inr (by simp)
        | cons next clauses => exact .inl (hlast (List.cons_ne_nil _ _))
      rw [← hkeyword] at hnested
      have hrest : ∀ c ∈ clauses.dropLast, EndsApart c.list.text := fun c hc => by
        apply hapart c
        rw [List.dropLast_cons_of_ne_nil fun h => by simp [h] at hc]
        exact List.mem_cons_of_mem _ hc
      have hzero :
          nesting ['<'] ['>'] (front ++ clause.keyword.toList ++ clause.list.text) = 0 := by
        rw [nesting_append, hkeyword, nesting_of_balanced clause.list.isBalanced]
        rfl
      have hends : clauses ≠ [] →
          EndsApart (front ++ clause.keyword.toList ++ clause.list.text) := fun hne =>
        (endsApart_append_iff _ clause.list.text_ne_nil).mpr (hlast hne)
      have hsize : byteLength (front ++ clause.keyword.toList ++ clause.list.text) =
          byteLength front + byteLength clause.text := by
        rw [BaseClause.text, byteLength_append, byteLength_append, byteLength_append, Nat.add_assoc]
      rw [List.flatMap_cons, BaseClause.text, List.append_assoc,
        Header.topFrom_keyword hfront (hstart (List.cons_ne_nil _ _)) clause.mem
          (clause.list.head _), Header.topFrom_nested hnested, ih hrest hzero hends, placedClauses,
        List.map_cons, hsize]

/-- The header clause that a clause gives. Permitted types are no base types. -/
def BaseClause.headerClause? (clause : BaseClause) (offset : Nat) : Option HeaderClause :=
  if clause.keyword = "extends" ∨ clause.keyword = "implements" then
    some ⟨clause.keyword.toList, offset, clause.list.types.map (·.core)⟩
  else none

/-- Every clause reaches up to the next one. -/
theorem clausesAt_clauses (shift : Nat) (clauses : List BaseClause) (front : List Char) :
    Header.clausesAt shift (front ++ clauses.flatMap (·.text))
        ((placedClauses (byteLength front) clauses).map fun (o, c) => (o, c.keyword.toList)) =
      (placedClauses (byteLength front) clauses).filterMap fun (o, c) =>
        c.headerClause? (shift + o) := by
  induction clauses generalizing front with
  | nil => rfl
  | cons clause clauses ih =>
      have hrest := ih (front ++ clause.text)
      have hslice : slice (front ++ (clause.text ++ clauses.flatMap (·.text)))
          ⟨byteLength front + byteLength clause.keyword.toList,
            byteLength front + byteLength clause.text⟩ = clause.list.text := by
        have hparts : front ++ (clause.text ++ clauses.flatMap (·.text)) =
            (front ++ clause.keyword.toList) ++
              (clause.list.text ++ clauses.flatMap (·.text)) := by simp [BaseClause.text]
        rw [hparts]
        exact slice_append_of_eq (byteLength_append ..).symm
          (by rw [BaseClause.text, byteLength_append, byteLength_append, Nat.add_assoc])
      have hstop : Header.EndsAt (front ++ (clause.text ++ clauses.flatMap (·.text)))
          (byteLength front + byteLength clause.text)
          ((placedClauses (byteLength front + byteLength clause.text) clauses).map
            fun (o, c) => (o, c.keyword.toList)) := by
        cases clauses with
        | nil => exact .inl ⟨rfl, by simp⟩
        | cons next clauses => exact .inr ⟨_, _, rfl⟩
      rw [byteLength_append, List.append_assoc] at hrest
      rw [List.flatMap_cons, placedClauses, List.map_cons, Header.clausesAt_cons _ _ hstop,
        hslice, hrest, clause.list.split_text, List.filterMap_cons]
      simp only [BaseClause.headerClause?, String.toList_inj]
      split <;> rfl

namespace JavaHeader

variable (header : JavaHeader)

/-- The byte offset in a header at which its clauses start. -/
def clausesStart : Nat := byteLength header.parametersText + byteLength header.leading.text

/-- What is left of a header after its type parameters. White space is left behind them only. -/
theorem exists_afterParameters : ∃ skipped gap, (∀ c ∈ gap, isBlank c = true) ∧
    header.text = skipped ++ (gap ++ header.clauses.flatMap (·.text)) ∧
    TypeList.afterParameters header.text = gap ++ header.clauses.flatMap (·.text) ∧
    byteLength skipped + byteLength gap = header.clausesStart := by
  have hblank := header.leading.blank
  cases hparameters : header.parameters with
  | none =>
      have hhead : ∀ c ∈ (header.clauses.flatMap (·.text)).head?, isWord c = true := by
        cases header.clauses with
        | nil => simp
        | cons clause clauses =>
            rw [List.flatMap_cons, BaseClause.text, List.append_assoc]
            exact (Header.isIdentifier_keywords clause.keyword clause.mem).head _
      have hstart : trimStart (header.leading.text ++ header.clauses.flatMap (·.text)) =
          header.clauses.flatMap (·.text) :=
        trimStart_append hblank fun c hc => isBlank_of_isWord (hhead c hc)
      refine ⟨header.leading.text, [], List.forall_mem_nil _, ?_, ?_, ?_⟩
      · simp [text, parametersText, hparameters]
      · rw [text, parametersText, hparameters, Option.elim_none, List.nil_append,
          TypeList.afterParameters_of_head, hstart, List.nil_append]
        rw [hstart]
        rintro c hc rfl
        exact absurd (hhead '<' hc) (by decide +kernel)
      · simp [clausesStart, parametersText, hparameters]
  | some brackets =>
      refine ⟨brackets.text, header.leading.text, hblank, ?_, ?_, ?_⟩
      · simp [text, parametersText, hparameters]
      · have hskip := TypeList.afterParameters_brackets brackets.gap.blank brackets.balanced
          (header.leading.text ++ header.clauses.flatMap (·.text))
        simpa [text, parametersText, hparameters, Brackets.text] using hskip
      · simp [clausesStart, parametersText, hparameters]

/-- The base clauses found in a header are those that it is made of. -/
theorem javaClauses_text : Header.javaClauses header.text =
    (placedClauses header.clausesStart header.clauses).filterMap fun (o, c) =>
      c.headerClause? o := by
  obtain ⟨skipped, gap, hgap, htext, hafter, hstart⟩ := header.exists_afterParameters
  have htop : Header.topKeywords ['<'] ['>'] (gap ++ header.clauses.flatMap (·.text)) =
      (placedClauses (byteLength gap) header.clauses).map
        fun (o, c) => (o, c.keyword.toList) := by
    have hnested := isNested_blanks hgap none 0 (header.clauses.flatMap (·.text))
    rw [Header.topKeywords_eq, Header.topFrom_nested hnested, List.nil_append]
    exact topFrom_clauses header.apart (nesting_of_balanced (isBalanced_of_isBlank hgap))
      fun _ => startsWord_lastOf_blanks rfl hgap
  have hshift : byteLength header.text - byteLength (gap ++ header.clauses.flatMap (·.text)) =
      byteLength skipped := by
    rw [htext, byteLength_append, Nat.add_sub_cancel]
  simp only [Header.javaClauses, hafter, htop, hshift]
  rw [clausesAt_clauses, ← hstart, placedClauses_add, List.filterMap_map]
  rfl

end JavaHeader

end ClassDiagram.Printed
