import ClassDiagram.Proofs.Declaration.Opening
import ClassDiagram.Proofs.Source.Occurrence
import ClassDiagram.Proofs.Text.Bracket

/-!
# Declarations with a closed body

A declaration whose body is closed is found whatever follows the closing brace: neither the words
that open it nor its header nor its body reach beyond that brace.
-/

namespace ClassDiagram.Declaration

open Text Source

/-- The byte offset of the brace that closes the body of the first declaration, if it is closed. -/
def closing? (language : Language) (skeleton : List Char) : Option Nat :=
  match occurrences (opening? language) (·.text.length) skeleton with
  | [] => none
  | (offset, o) :: _ =>
    match headerEnd 0 (offset + byteLength o.text) o.rest with
    | (_, none) => none
    | (brace, some body) => partner? '{' '}' brace body

variable {language : Language}

/-- An opening is read whatever follows it, unless its name goes on. -/
theorem opening?_eq_some {cs : List Char} {o : Opening} (h : opening? language cs = some o) :
    cs = o.text ++ o.rest ∧ o.text ≠ [] ∧ '}' ∉ o.text ∧ (∀ c ∈ o.rest.head?, isWord c = false) ∧
      ∀ rest, (∀ c ∈ rest.head?, isWord c = false) →
        opening? language (o.text ++ rest) = some { o with rest := rest } := by
  obtain ⟨hparts, hread⟩ := opening?_eq_some_iff.mp h
  have hword := isIdentifier_declarationKeywords language _ hread.keyword
  rw [String.toList_ofList] at hword
  refine ⟨hparts, hread.text_ne_nil, ?_, hread.rest, fun rest hrest => ?_⟩
  · simp only [Opening.text, List.mem_append, not_or]
    refine ⟨⟨fun hc => ?_, fun hc => ?_⟩, fun hc => ?_⟩
    · exact absurd (hword.isWord _ hc) (by decide)
    · exact absurd (hread.gap_blank _ hc) (by decide)
    · exact absurd (hread.name.isWord _ hc) (by decide)
  · exact opening?_eq_some_iff.mpr ⟨rfl, { hread with rest := hrest }⟩

/-- Whether something is opened in front of a brace does not depend on what follows the brace. -/
theorem opening?_eq_none_congr {cs rest : List Char}
    (h : opening? language (cs ++ '}' :: rest) = none) (further : List Char) :
    opening? language (cs ++ '}' :: further) = none := by
  by_contra hsome
  obtain ⟨o, ho⟩ := Option.ne_none_iff_exists'.mp hsome
  obtain ⟨hparts, _, hbrace, hhead, hread⟩ := opening?_eq_some ho
  -- An opening has no brace in it, so it stands in front of this one.
  obtain ⟨between, rfl, hrest⟩ : ∃ between, cs = o.text ++ between ∧
      o.rest = between ++ '}' :: further := by
    rcases List.append_eq_append_iff.mp hparts with ⟨between, htext, hbetween⟩ | ⟨between, hcs, h⟩
    · cases between with
      | nil => exact ⟨[], by simpa using htext.symm, hbetween.symm⟩
      | cons c between =>
          obtain ⟨rfl, _⟩ := List.cons.inj hbetween
          exact absurd (htext ▸ List.mem_append_right _ List.mem_cons_self) hbrace
    · exact ⟨between, hcs, h⟩
  rw [hrest] at hhead
  have hends : ∀ c ∈ (between ++ '}' :: rest).head?, isWord c = false := by
    cases between with
    | nil => exact forall_mem_head_cons (by decide) rest
    | cons c between => exact forall_mem_head_cons (hhead c rfl) _
  rw [List.append_assoc, hread _ hends] at h
  exact absurd h (by simp)

/-- A header that ends at a brace ends there whatever follows the brace. -/
theorem headerEnd_eq_some {depth offset brace : Nat} {cs body : List Char}
    (h : headerEnd depth offset cs = (brace, some body)) :
    ∃ header further, cs = header ++ body ∧ body = '{' :: further ∧
      brace = offset + byteLength header ∧
      ∀ rest, headerEnd depth offset (header ++ '{' :: rest) = (brace, some ('{' :: rest)) := by
  induction cs generalizing depth offset with
  | nil => exact absurd h (by simp [headerEnd])
  | cons c cs ih =>
      -- If the reading goes on after `c`, then it does so whatever follows.
      have hon : ∀ next, headerEnd next (offset + c.utf8Size) cs = (brace, some body) →
          (∀ rest, headerEnd depth offset (c :: rest) =
            headerEnd next (offset + c.utf8Size) rest) →
          ∃ header further, c :: cs = header ++ body ∧ body = '{' :: further ∧
            brace = offset + byteLength header ∧
            ∀ rest, headerEnd depth offset (header ++ '{' :: rest) =
              (brace, some ('{' :: rest)) := by
        intro next hread hstep
        obtain ⟨header, further, rfl, hbody, hbrace, hrest⟩ := ih hread
        refine ⟨c :: header, further, rfl, hbody, ?_, fun rest => ?_⟩
        · rw [hbrace, byteLength_cons, Nat.add_assoc]
        · rw [List.cons_append, hstep, hrest]
      rw [headerEnd] at h
      split at h
      next hopen => exact hon _ h fun rest => by rw [headerEnd, if_pos hopen]
      next hopen =>
        split at h
        next hclose => exact hon _ h fun rest => by rw [headerEnd, if_neg hopen, if_pos hclose]
        next hclose =>
          split at h
          next hends =>
            obtain ⟨rfl, hbody⟩ := Prod.mk.inj h
            obtain rfl := Option.some.inj hbody
            obtain ⟨hbrace, hdepth⟩ := Bool.and_eq_true_iff.mp hends
            obtain rfl := of_decide_eq_true hbrace
            obtain rfl := of_decide_eq_true hdepth
            exact ⟨[], cs, rfl, rfl, rfl, fun rest => rfl⟩
          next hends =>
            split at h
            next => exact absurd h (by simp)
            next hsemicolon =>
              exact hon _ h fun rest => by
                rw [headerEnd, if_neg hopen, if_neg hclose, if_neg hends, if_neg hsemicolon]

/-- A header without a body ends at a semicolon or with the text. -/
theorem headerEnd_eq_none {depth offset stop : Nat} {cs : List Char}
    (h : headerEnd depth offset cs = (stop, none)) :
    ∃ header rest, cs = header ++ rest ∧ stop = offset + byteLength header := by
  induction cs generalizing depth offset with
  | nil =>
      obtain ⟨rfl, _⟩ := Prod.mk.inj h
      exact ⟨[], [], rfl, rfl⟩
  | cons c cs ih =>
      have hon : ∀ next, headerEnd next (offset + c.utf8Size) cs = (stop, none) →
          ∃ header rest, c :: cs = header ++ rest ∧ stop = offset + byteLength header := by
        intro next hread
        obtain ⟨header, rest, rfl, hstop⟩ := ih hread
        exact ⟨c :: header, rest, rfl, by rw [hstop, byteLength_cons, Nat.add_assoc]⟩
      rw [headerEnd] at h
      split at h
      next => exact hon _ h
      next =>
        split at h
        next => exact hon _ h
        next =>
          split at h
          next => exact absurd h (by simp)
          next =>
            split at h
            next =>
              obtain ⟨rfl, _⟩ := Prod.mk.inj h
              exact ⟨[], c :: cs, rfl, rfl⟩
            next => exact hon _ h

/-- A body starts with its opening brace, so it does not end there. -/
theorem exists_body_of_brace {further inside after : List Char}
    (h : '{' :: further = inside ++ '}' :: after) : ∃ body, inside = '{' :: body := by
  cases inside with
  | nil => exact absurd (List.cons.inj h).1 (by decide)
  | cons c inside =>
      obtain ⟨rfl, _⟩ := List.cons.inj h
      exact ⟨inside, rfl⟩

/-- A declaration whose body is closed is found whatever follows the closing brace. -/
theorem find?_of_closing? {skeleton : List Char} {stop : Nat}
    (h : closing? language skeleton = some stop) :
    ∃ d before body rest, skeleton = before ++ body ++ '}' :: rest ∧
      byteLength (before ++ body) = stop ∧ d.body = ⟨byteLength before, stop⟩ ∧
      ∀ further, find? language (before ++ body ++ '}' :: further) = some d := by
  unfold closing? at h
  split at h
  next => exact absurd h (by simp)
  next offset o others hoccurs =>
    split at h
    next => exact absurd h (by simp)
    next brace text hheader =>
      obtain ⟨start, back, rfl, ho, hstart, hopen, hquiet⟩ := occurrencesFrom_eq_cons hoccurs
      obtain ⟨rfl, hne, _, hhead, hread⟩ := opening?_eq_some hopen
      obtain ⟨header, further, hrest, rfl, rfl, hheaderEnd⟩ := headerEnd_eq_some hheader
      obtain ⟨inside, after, hinside, rfl, hpartner⟩ := closingFrom_eq_some h
      obtain ⟨body, rfl⟩ := exists_body_of_brace hinside
      rw [Nat.zero_add] at ho
      subst ho
      have hmark : '{'.utf8Size = 1 := by decide
      have hstarts : ∀ z, ∀ c ∈ (header ++ '{' :: z).head?, isWord c = false := by
        intro z
        cases header with
        | nil => exact forall_mem_head_cons (by decide) z
        | cons c header => exact forall_mem_head_cons (hhead c (by rw [hrest]; rfl)) _
      have hquiet : ∀ z, IsQuiet (opening? language) none start
          (o.text ++ (header ++ '{' :: (body ++ '}' :: z))) := by
        intro z place between hplace hword
        have hsplit : ∀ z, between ++ (o.text ++ (header ++ '{' :: (body ++ '}' :: z))) =
            (between ++ (o.text ++ (header ++ '{' :: body))) ++ '}' :: z := by simp
        have hnone := hquiet place between hplace hword
        rw [hrest, hinside, List.cons_append, hsplit] at hnone
        rw [hsplit]
        exact opening?_eq_none_congr hnone z
      refine ⟨⟨String.ofList o.keyword, String.ofList o.name,
        ⟨byteLength start + byteLength o.text,
          byteLength start + byteLength o.text + byteLength header⟩,
        ⟨byteLength start + byteLength o.text + byteLength header + 1,
          byteLength start + byteLength o.text + byteLength header + byteLength ('{' :: body)⟩⟩,
        start ++ (o.text ++ (header ++ ['{'])), body, after, ?_, ?_, ?_, ?_⟩
      · rw [hrest, hinside]
        simp
      · simp only [byteLength_append, byteLength_cons, byteLength_nil, hmark]
        omega
      · simp only [byteLength_append, byteLength_cons, byteLength_nil, hmark, Nat.add_assoc]
      · intro z
        have hoccurrence := occurrencesFrom_of_quiet (·.text.length) (hquiet z) 0
        rw [occurrencesFrom_phrase hstart hne (hread _ (hstarts _)) rfl, Nat.zero_add]
          at hoccurrence
        have hskeleton : start ++ (o.text ++ (header ++ ['{'])) ++ body ++ '}' :: z =
            start ++ (o.text ++ (header ++ '{' :: (body ++ '}' :: z))) := by simp
        have hclose := hpartner z
        rw [List.cons_append] at hclose
        have htext : ∀ z, Opening.text { o with rest := z } = o.text := fun _ => rfl
        rw [hskeleton, find?, occurrences, hoccurrence]
        simp only [htext, headerAndBody, hheaderEnd, partner?, hclose, Option.getD_some]

/-- The parts of a declaration in the skeleton: its header, and its body if there is one, which ends
at a closing brace or at the end of the text. -/
theorem exists_parts_of_find? {skeleton : List Char} {d : Declaration}
    (h : find? language skeleton = some d) :
    ∃ front header rest, skeleton = front ++ (header ++ rest) ∧
      d.header = ⟨byteLength front, byteLength (front ++ header)⟩ ∧
      (d.body = ⟨byteLength (front ++ header), byteLength (front ++ header)⟩ ∨
        ∃ body after, rest = '{' :: (body ++ after) ∧
          d.body = ⟨byteLength (front ++ header ++ ['{']),
            byteLength (front ++ header ++ ['{'] ++ body)⟩ ∧
          (after = [] ∨ ∃ further, after = '}' :: further)) := by
  rw [find?] at h
  split at h
  next => exact absurd h (by simp)
  next offset o others hoccurs =>
    obtain rfl := Option.some.inj h
    obtain ⟨start, back, rfl, ho, _, hopen, _⟩ := occurrencesFrom_eq_cons hoccurs
    obtain ⟨rfl, _⟩ := opening?_eq_some hopen
    rw [Nat.zero_add] at ho
    subst ho
    dsimp only
    rw [← byteLength_append]
    split
    next stop hheader =>
      obtain ⟨header, rest, hrest, rfl⟩ := headerEnd_eq_none hheader
      rw [← byteLength_append]
      exact ⟨start ++ o.text, header, rest, by simp [hrest], rfl, .inl rfl⟩
    next brace text hheader =>
      obtain ⟨header, further, hrest, rfl, rfl, _⟩ := headerEnd_eq_some hheader
      have hmark : '{'.utf8Size = 1 := by decide
      have hbefore : byteLength (start ++ o.text) + byteLength header + 1 =
          byteLength (start ++ o.text ++ header ++ ['{']) := by
        simp only [byteLength_append, byteLength_cons, byteLength_nil, hmark]
      refine ⟨start ++ o.text, header, '{' :: further, by simp [hrest],
        by rw [← byteLength_append], .inr ?_⟩
      dsimp only
      rw [hbefore]
      cases hpartner : partner? '{' '}' (byteLength (start ++ o.text) + byteLength header)
          ('{' :: further) with
      | none =>
          refine ⟨further, [], by simp, ?_, .inl rfl⟩
          rw [Option.getD_none, hrest]
          congr 2
          simp
      | some stop =>
          obtain ⟨inside, after, hinside, rfl, _⟩ := closingFrom_eq_some hpartner
          obtain ⟨body, rfl⟩ := exists_body_of_brace hinside
          refine ⟨body, '}' :: after, hinside, ?_, .inr ⟨after, rfl⟩⟩
          rw [Option.getD_some]
          congr 1
          simp only [byteLength_append, byteLength_cons, byteLength_nil, hmark]
          omega

/-- The body of a declaration ends at a closing brace or at the end of the text, unless there is
none. -/
theorem exists_body_of_find? {skeleton : List Char} {d : Declaration}
    (h : find? language skeleton = some d) :
    slice skeleton d.body = [] ∨ ∃ before body after, skeleton = before ++ (body ++ after) ∧
      d.body = ⟨byteLength before, byteLength (before ++ body)⟩ ∧
      (after = [] ∨ ∃ rest, after = '}' :: rest) := by
  obtain ⟨front, header, rest, rfl, _, hbody | ⟨body, after, rfl, hbody, hafter⟩⟩ :=
    exists_parts_of_find? h
  · rw [hbody]
    exact .inl (by simp [slice, takeBytes])
  · exact .inr ⟨front ++ header ++ ['{'], body, after, by simp, hbody, hafter⟩

end ClassDiagram.Declaration
