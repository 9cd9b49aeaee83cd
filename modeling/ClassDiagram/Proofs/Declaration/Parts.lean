import ClassDiagram.Proofs.Declaration.Closed
import ClassDiagram.Proofs.Source.Masking

/-!
# The parts of a declaration

A declaration is cut out of a text at the places that its brackets ask for. The header goes up to
the first brace or semicolon outside parentheses, and the body from that brace to its partner, or
to the end of the text if it has none.
-/

namespace ClassDiagram

open Text Source

namespace Text

/-! ## Outside parentheses -/

theorem nesting_cons (opening closing : List Char) (c : Char) (cs : List Char) :
    nesting opening closing (c :: cs) =
      nesting opening closing [c] + nesting opening closing cs :=
  nesting_append opening closing [c] cs

/-- What stands behind `front` is outside parentheses: no stretch up to there opens more of them
than it closes. A closing one that matches none does not make up for a later opening one. -/
def IsOutside (front : List Char) : Prop :=
  ∀ part, part <:+ front → nesting ['('] [')'] part ≤ 0

/-- As `IsOutside`, where `depth` parentheses are open in front of `front`. -/
def IsOutsideFrom (depth : Nat) (front : List Char) : Prop :=
  depth + nesting ['('] [')'] front ≤ 0 ∧ IsOutside front

theorem isOutsideFrom_zero {front : List Char} : IsOutsideFrom 0 front ↔ IsOutside front := by
  refine ⟨And.right, fun h => ⟨?_, h⟩⟩
  have hall := h front (List.suffix_refl _)
  omega

theorem isOutside_cons {c : Char} {front : List Char} :
    IsOutside (c :: front) ↔ nesting ['('] [')'] (c :: front) ≤ 0 ∧ IsOutside front := by
  constructor
  · exact fun h => ⟨h _ (List.suffix_refl _), fun part hpart =>
      h part (hpart.trans (List.suffix_cons c front))⟩
  · rintro ⟨hall, h⟩ part hpart
    rcases List.suffix_cons_iff.mp hpart with rfl | hpart
    · exact hall
    · exact h part hpart

/-- Parentheses are counted from the left: a closing one takes one away if there is one. -/
theorem isOutsideFrom_cons {depth : Nat} {c : Char} {front : List Char} :
    IsOutsideFrom depth (c :: front) ↔
      IsOutsideFrom (if c = '(' then depth + 1 else if c = ')' then depth - 1 else depth)
        front := by
  rw [IsOutsideFrom, IsOutsideFrom, isOutside_cons, nesting_cons]
  have hfront : IsOutside front → nesting ['('] [')'] front ≤ 0 := fun h =>
    h front (List.suffix_refl _)
  by_cases hopen : c = '('
  · subst hopen
    rw [if_pos rfl, show nesting ['('] [')'] ['('] = 1 by decide]
    grind
  · by_cases hclose : c = ')'
    · subst hclose
      rw [if_neg hopen, if_pos rfl, show nesting ['('] [')'] [')'] = -1 by decide]
      grind
    · rw [if_neg hopen, if_neg hclose, show nesting ['('] [')'] [c] = 0 by
        simp [nesting, hopen, hclose]]
      grind

/-! ## Braces -/

variable {opening closing : Char}

/-- No part at the head of a text closes more than it opens. -/
def NeverOverCloses (opening closing : Char) (cs : List Char) : Prop :=
  ∀ part, part <+: cs → 0 ≤ nesting [opening] [closing] part

theorem neverOverCloses_of_openAfter {cs : List Char} {after : Nat}
    (h : openAfter opening closing 0 cs = some after) : NeverOverCloses opening closing cs := by
  rintro part ⟨rest, rfl⟩
  rw [openAfter_append, Option.bind_eq_some_iff] at h
  obtain ⟨inside, hinside, _⟩ := h
  have hnesting := nesting_of_openAfter hinside
  omega

end Text

namespace Declaration

/-! ## Headers -/

/-- A header holds neither a brace nor a semicolon outside parentheses, of which `depth` are open in
front of it. -/
def IsHeaderFrom (depth : Nat) (header : List Char) : Prop :=
  ∀ front c back, header = front ++ c :: back → IsOutsideFrom depth front → c ≠ '{' ∧ c ≠ ';'

theorem IsHeaderFrom.cons {depth : Nat} {c : Char} {header : List Char}
    (hfirst : depth = 0 → c ≠ '{' ∧ c ≠ ';')
    (h : IsHeaderFrom (if c = '(' then depth + 1 else if c = ')' then depth - 1 else depth)
      header) : IsHeaderFrom depth (c :: header) := by
  intro front d back hparts hout
  cases front with
  | nil =>
      obtain ⟨rfl, rfl⟩ := List.cons.inj hparts
      have hdepth := hout.1
      rw [show nesting ['('] [')'] [] = 0 from rfl] at hdepth
      exact hfirst (by omega)
  | cons e front =>
      obtain ⟨rfl, rfl⟩ := List.cons.inj hparts
      exact h front d back rfl (isOutsideFrom_cons.mp hout)

/-- A header ends at the first brace or semicolon outside parentheses, or with the text. -/
theorem exists_header_of_headerEnd {depth offset stop : Nat} {cs : List Char}
    {body : Option (List Char)} (h : headerEnd depth offset cs = (stop, body)) :
    ∃ header rest, cs = header ++ rest ∧ stop = offset + byteLength header ∧
      IsHeaderFrom depth header ∧
      (body = none ∧ rest = [] ∨ IsOutsideFrom depth header ∧
        (body = none ∧ rest.head? = some ';' ∨ body = some rest ∧ rest.head? = some '{')) := by
  induction cs generalizing depth offset with
  | nil =>
      obtain ⟨rfl, rfl⟩ := Prod.mk.inj h
      exact ⟨[], [], rfl, rfl, by simp [IsHeaderFrom], .inl ⟨rfl, rfl⟩⟩
  | cons c cs ih =>
      by_cases hends : depth = 0 ∧ (c = '{' ∨ c = ';')
      · -- The header ends in front of `c`.
        have hout : IsOutsideFrom 0 [] := by
          refine isOutsideFrom_zero.mpr fun part hpart => ?_
          rw [List.suffix_nil.mp hpart]
          decide
        obtain ⟨rfl, rfl | rfl⟩ := hends
        · obtain ⟨rfl, rfl⟩ := Prod.mk.inj h
          exact ⟨[], '{' :: cs, rfl, rfl, by simp [IsHeaderFrom],
            .inr ⟨hout, .inr ⟨rfl, rfl⟩⟩⟩
        · obtain ⟨rfl, rfl⟩ := Prod.mk.inj h
          exact ⟨[], ';' :: cs, rfl, rfl, by simp [IsHeaderFrom],
            .inr ⟨hout, .inl ⟨rfl, rfl⟩⟩⟩
      · have hstep : headerEnd depth offset (c :: cs) =
            headerEnd (if c = '(' then depth + 1 else if c = ')' then depth - 1 else depth)
              (offset + c.utf8Size) cs := by
          rw [headerEnd]
          grind
        rw [hstep] at h
        obtain ⟨header, rest, rfl, rfl, hheader, hrest⟩ := ih h
        refine ⟨c :: header, rest, rfl, by rw [byteLength_cons, Nat.add_assoc],
          hheader.cons (by grind), ?_⟩
        rwa [isOutsideFrom_cons]

/-! ## Declarations -/

/-- A text up to the end of the name of a declaration, its header, and the rest of the text. -/
structure HasHeader (d : Declaration) (text front header rest : List Char) : Prop where
  text_eq : text = front ++ (header ++ rest)
  opened : ∃ before gap, front = before ++ (d.keyword.toList ++ (gap ++ d.name.toList)) ∧
    gap ≠ [] ∧ ∀ c ∈ gap, isBlank c = true
  span : d.header = ⟨byteLength front, byteLength (front ++ header)⟩
  marks : ∀ before c after, header = before ++ c :: after → IsOutside before →
    c ≠ '{' ∧ c ≠ ';'

/-- The span of a body, where `rest` stands behind a header that ends at the byte offset `stop`. -/
inductive HasBody (header rest : List Char) (stop : Nat) (span : Span) : Prop
  /-- The body stands between a brace and its partner, or it is never closed. -/
  | braces (body after : List Char) (hrest : rest = '{' :: (body ++ after))
      (hspan : span = ⟨stop + 1, stop + 1 + byteLength body⟩) (outside : IsOutside header)
      (open_within : NeverOverCloses '{' '}' body)
      (closed : IsBalanced '{' '}' body ∧ after.head? = some '}' ∨
        after = [] ∧ ∀ part, part <+: body → 0 < nesting ['{'] ['}'] ('{' :: part))
  /-- There is no body, and the header ends at a semicolon or with the text. -/
  | without (hspan : span = ⟨stop, stop⟩)
      (hrest : rest = [] ∨ rest.head? = some ';' ∧ IsOutside header)

/-- The spans of a declaration follow each other in a text of `size` bytes. -/
structure IsOrdered (d : Declaration) (size : Nat) : Prop where
  header : d.header.start ≤ d.header.stop
  between : d.header.stop ≤ d.body.start
  body : d.body.start ≤ d.body.stop
  size : d.body.stop ≤ size

theorem HasHeader.isOrdered {d : Declaration} {text front header rest : List Char}
    (hheader : d.HasHeader text front header rest)
    (hbody : HasBody header rest d.header.stop d.body) :
    d.IsOrdered (byteLength text) := by
  have hsize := congrArg byteLength hheader.text_eq
  have hspan := hheader.span
  have hmark : '{'.utf8Size = 1 := by decide
  simp only [byteLength_append] at hsize hspan
  cases hbody with
  | braces body after hrest hbody =>
      simp only [hrest, byteLength_append, byteLength_cons, hmark] at hsize
      constructor <;> simp only [hbody, hspan] <;> omega
  | without hbody =>
      constructor <;> simp only [hbody, hspan] <;> omega

variable {language : Language}

/-- What stands between the brace behind a header and its partner is a body. -/
theorem exists_body_of_partner? {brace size : Nat} {further : List Char}
    (hsize : size = brace + 1 + byteLength further) :
    ∃ body after, further = body ++ after ∧
      (partner? '{' '}' brace ('{' :: further)).getD size = brace + 1 + byteLength body ∧
      NeverOverCloses '{' '}' body ∧
      (IsBalanced '{' '}' body ∧ after.head? = some '}' ∨
        after = [] ∧ ∀ part, part <+: body → 0 < nesting ['{'] ['}'] ('{' :: part)) := by
  have hsearch : partner? '{' '}' brace ('{' :: further) =
      closingFrom Char.utf8Size '{' '}' (0 + 1) (brace + 1) further := by
    rw [partner?, closingFrom, if_pos rfl]
    rfl
  rw [hsearch]
  cases hpartner : closingFrom Char.utf8Size '{' '}' (0 + 1) (brace + 1) further with
  | some stop =>
      obtain ⟨body, after, rfl, rfl, hopen⟩ := exists_openAfter_of_closingFrom hpartner
      exact ⟨body, '}' :: after, rfl, rfl, neverOverCloses_of_openAfter hopen, .inl ⟨hopen, rfl⟩⟩
  | none =>
      obtain ⟨after, hopen⟩ := exists_openAfter_of_closingFrom_eq_none hpartner
      have hnever := neverOverCloses_of_openAfter hopen
      refine ⟨further, [], by simp, hsize, hnever, .inr ⟨rfl, fun part hpart => ?_⟩⟩
      have hpart := hnever part hpart
      rw [nesting_cons, show nesting ['{'] ['}'] ['{'] = 1 by decide]
      omega

/-- The header and the body behind a name that ends at the byte offset `offset`. -/
theorem exists_parts_of_headerAndBody {size offset : Nat} {cs : List Char}
    (hsize : size = offset + byteLength cs) :
    ∃ header rest, cs = header ++ rest ∧
      (headerAndBody size offset cs).1 = ⟨offset, offset + byteLength header⟩ ∧
      IsHeaderFrom 0 header ∧
      HasBody header rest (offset + byteLength header) (headerAndBody size offset cs).2 := by
  cases hend : headerEnd 0 offset cs with
  | mk stop body =>
      obtain ⟨header, rest, rfl, rfl, hheader, hrest⟩ := exists_header_of_headerEnd hend
      rw [isOutsideFrom_zero] at hrest
      refine ⟨header, rest, rfl, ?_⟩
      rcases hrest with ⟨rfl, hnil⟩ | ⟨hout, ⟨rfl, hsemicolon⟩ | ⟨rfl, hbrace⟩⟩
      · rw [headerAndBody, hend]
        exact ⟨rfl, hheader, .without rfl (.inl hnil)⟩
      · rw [headerAndBody, hend]
        exact ⟨rfl, hheader, .without rfl (.inr ⟨hsemicolon, hout⟩)⟩
      · obtain ⟨further, rfl⟩ := List.head?_eq_some_iff.mp hbrace
        have hmark : '{'.utf8Size = 1 := by decide
        have hbehind : size = offset + byteLength header + 1 + byteLength further := by
          rw [hsize, byteLength_append, byteLength_cons, hmark]
          omega
        obtain ⟨body, after, rfl, hstop, hnever, hclosed⟩ := exists_body_of_partner? hbehind
        rw [headerAndBody, hend]
        dsimp only
        rw [hstop]
        exact ⟨rfl, hheader, .braces body after rfl rfl hout hnever hclosed⟩

/-- A declaration is cut out of a source exactly. Its header follows the keyword and the name and
has no brace and no semicolon outside parentheses. If a brace ends it there, the body goes from that
brace to its partner, or to the end of the source if it has none. Otherwise it ends at a semicolon
or with the source, and the body is empty. -/
theorem exists_cut_of_find? {source : List Char} {d : Declaration}
    (h : find? language (Masked.ofSource source).skeleton = some d) :
    d.IsOrdered (byteLength source) ∧ ∃ front header rest,
      d.HasHeader (Masked.ofSource source).skeleton front header rest ∧
        HasBody header rest d.header.stop d.body := by
  rw [← (byteLength_ofSource source).2]
  generalize (Masked.ofSource source).skeleton = text at h ⊢
  suffices hparts : ∃ front header rest, d.HasHeader text front header rest ∧
      HasBody header rest d.header.stop d.body by
    obtain ⟨front, header, rest, hheader, hbody⟩ := hparts
    exact ⟨hheader.isOrdered hbody, front, header, rest, hheader, hbody⟩
  rw [find?] at h
  split at h
  next => exact absurd h (by simp)
  next offset o others hoccurs =>
    obtain ⟨start, back, rfl, rfl, _, hopen, _⟩ := occurrencesFrom_eq_cons hoccurs
    obtain ⟨rfl, hread⟩ := opening?_eq_some_iff.mp hopen
    have hsize : byteLength (start ++ (o.text ++ o.rest)) =
        0 + byteLength start + byteLength o.text + byteLength o.rest := by
      simp only [byteLength_append]
      omega
    obtain ⟨header, rest, hrest, hspan, hheader, hbody⟩ := exists_parts_of_headerAndBody hsize
    cases hspans : headerAndBody (byteLength (start ++ (o.text ++ o.rest)))
        (0 + byteLength start + byteLength o.text) o.rest with
    | mk headerSpan bodySpan =>
        rw [hspans] at h hspan hbody
        obtain rfl := Option.some.inj h
        obtain rfl : headerSpan = _ := hspan
        refine ⟨start ++ o.text, header, rest, ⟨?_, ?_, ?_, ?_⟩, hbody⟩
        · rw [hrest, List.append_assoc]
        · refine ⟨start, o.gap, ?_, hread.gap_ne_nil, hread.gap_blank⟩
          simp [Opening.text]
        · simp only [byteLength_append, Nat.zero_add]
        · intro before c after hparts hout
          exact hheader before c after hparts (isOutsideFrom_zero.mpr hout)

/-- A declaration with marks inside its parentheses, a closing one too many, and braces in its body.
-/
def nestedBraces : List Char :=
  "sealed record P)(int n = \x7b;\x7d) : B \x7b f \x7b \x7d \x7d y".toList

theorem exists_cut_of_find?_nestedBraces :
    find? .csharp (Masked.ofSource nestedBraces).skeleton =
        some ⟨"record", "P", ⟨15, 34⟩, ⟨35, 42⟩⟩ ∧
      IsOrdered ⟨"record", "P", ⟨15, 34⟩, ⟨35, 42⟩⟩ 45 ∧ ∃ front header rest,
        HasHeader ⟨"record", "P", ⟨15, 34⟩, ⟨35, 42⟩⟩ nestedBraces front header rest ∧
          HasBody header rest 34 ⟨35, 42⟩ := by
  have hfind : find? .csharp (Masked.ofSource nestedBraces).skeleton =
      some ⟨"record", "P", ⟨15, 34⟩, ⟨35, 42⟩⟩ := by decide +kernel
  have hcut := exists_cut_of_find? hfind
  have hsize : byteLength nestedBraces = 45 := by decide +kernel
  have hplain : (Masked.ofSource nestedBraces).skeleton = nestedBraces := by decide +kernel
  rw [hsize, hplain] at hcut
  exact ⟨hfind, hcut⟩

end Declaration

end ClassDiagram
