import ClassDiagram.Proofs.Source.Types
import ClassDiagram.Proofs.Text.Paired
import ClassDiagram.TypeList

/-!
# Lists of types, simple names, type parameters and constructions

A list of types is divided where it was put together. The simple name of a type is the last part
of its qualified name. The type parameters of a header end at the bracket that closes them. An
initializer constructs a type in one way only.
-/

namespace ClassDiagram.TypeList

open Text Source

/-! ## Brackets in a list -/

/-- The number of brackets open after a text, of which `depth` are open before it. A closing one
that matches none is passed over. -/
def openBehind (depth : Nat) : List Char → Nat
  | [] => depth
  | c :: cs =>
    if c = '<' || c = '(' then openBehind (depth + 1) cs
    else if c = '>' || c = ')' then openBehind (depth - 1) cs
    else openBehind depth cs

theorem openBehind_append (depth : Nat) (a b : List Char) :
    openBehind depth (a ++ b) = openBehind (openBehind depth a) b := by
  induction a generalizing depth with
  | nil => rfl
  | cons c a ih =>
      rw [List.cons_append, openBehind, openBehind]
      split
      next => exact ih _
      next => split <;> exact ih _

theorem openBehind_of_forall {cs : List Char} (h : ∀ c ∈ cs, c ∉ ['<', '>', '(', ')'])
    (depth : Nat) : openBehind depth cs = depth := by
  induction cs with
  | nil => rfl
  | cons c cs ih =>
      have hmarks := h c List.mem_cons_self
      simp only [List.mem_cons, List.not_mem_nil, or_false, not_or] at hmarks
      obtain ⟨hless, hgreater, hopen, hclose⟩ := hmarks
      rw [openBehind, if_neg (by simp [hless, hopen]), if_neg (by simp [hgreater, hclose])]
      exact ih fun d hd => h d (List.mem_cons_of_mem _ hd)

/-- Between brackets that match, no bracket is passed over. -/
theorem openBehind_inside {cs : List Char} {depth after : Nat}
    (h : openAfter '<' '>' depth (cs.map angled) = some after) :
    openBehind (depth + 1) cs = after + 1 := by
  induction cs generalizing depth with
  | nil => rw [← Option.some.inj h, openBehind]
  | cons c cs ih =>
      rw [List.map_cons, openAfter] at h
      simp only [angled_eq_less_iff, angled_eq_greater_iff] at h
      rw [openBehind]
      split at h
      next hopen => rw [if_pos (by simpa using hopen), ih h]
      next hopen =>
        rw [if_neg (by simpa using hopen)]
        split at h
        next hclose =>
          split at h
          next => exact absurd h (by simp)
          next hdepth =>
            rw [if_pos (by simpa using hclose), ← ih h]
            congr 1
            omega
        next hclose => rw [if_neg (by simpa using hclose), ih h]

/-! ## Dividing a list -/

/-- A text whose commas stand between brackets, of which `depth` are open before it. -/
def StaysTogether (depth : Nat) (cs : List Char) : Prop :=
  ∀ front back, cs = front ++ ',' :: back → 0 < openBehind depth front

theorem staysTogether_of_forall {cs : List Char} (h : ∀ c ∈ cs, c ≠ ',') (depth : Nat) :
    StaysTogether depth cs := by
  rintro front back rfl
  exact absurd rfl (h ',' (by simp))

theorem staysTogether_append_iff {depth : Nat} {a b : List Char} :
    StaysTogether depth (a ++ b) ↔
      StaysTogether depth a ∧ StaysTogether (openBehind depth a) b := by
  constructor
  · intro h
    refine ⟨fun front back hparts => ?_, fun front back hparts => ?_⟩
    · exact h front (back ++ b) (by rw [hparts, List.append_assoc]; rfl)
    · rw [← openBehind_append]
      exact h (a ++ front) back (by rw [hparts, List.append_assoc])
  · rintro ⟨ha, hb⟩ front back hparts
    rcases List.append_eq_append_iff.mp hparts with ⟨between, rfl, hrest⟩ | ⟨between, rfl, hrest⟩
    · rw [openBehind_append]
      exact hb between back hrest
    · cases between with
      | nil =>
          rw [List.append_nil] at hb
          exact hb [] back hrest.symm
      | cons c between =>
          obtain ⟨rfl, _⟩ := List.cons.inj hrest
          exact ha front between rfl

theorem staysTogether_inside {cs : List Char} {depth after : Nat}
    (h : openAfter '<' '>' depth (cs.map angled) = some after) : StaysTogether (depth + 1) cs := by
  rintro front back rfl
  rw [List.map_append, openAfter_append] at h
  obtain ⟨between, hfront, _⟩ := Option.bind_eq_some_iff.mp h
  rw [openBehind_inside hfront]
  exact Nat.succ_pos between

/-- A text that stays together is read to its end before the list is divided. -/
theorem divideFrom_append {depth : Nat} {cs : List Char} (h : StaysTogether depth cs)
    (current rest : List Char) :
    divideFrom depth current (cs ++ rest) =
      divideFrom (openBehind depth cs) (cs.reverse ++ current) rest := by
  induction cs generalizing depth current with
  | nil => rfl
  | cons c cs ih =>
      have hon : ∀ next, openBehind depth [c] = next →
          divideFrom next (c :: current) (cs ++ rest) =
            divideFrom (openBehind next cs) ((c :: cs).reverse ++ current) rest := by
        rintro next rfl
        have htail := (staysTogether_append_iff.mp (List.singleton_append ▸ h)).2
        rw [ih htail, List.reverse_cons, List.append_assoc, List.singleton_append]
      rw [List.cons_append, divideFrom, openBehind]
      split
      next hopen => exact hon _ (by rw [openBehind, if_pos hopen]; rfl)
      next hopen =>
        split
        next hclose => exact hon _ (by rw [openBehind, if_neg hopen, if_pos hclose]; rfl)
        next hclose =>
          have hcomma : ¬(decide (c = ',') && decide (depth = 0)) = true := by
            intro hends
            obtain ⟨rfl, rfl⟩ : c = ',' ∧ depth = 0 := by simpa using hends
            exact absurd (h [] cs rfl) (Nat.lt_irrefl 0)
          rw [if_neg hcomma]
          exact hon _ (by rw [openBehind, if_neg hopen, if_neg hclose]; rfl)

/-- A text without marks goes into the part that has begun, at any depth. -/
theorem divideFrom_append_of_forall {cs : List Char} (h : ∀ c ∈ cs, c ∉ ['<', '>', '(', ')', ','])
    (depth : Nat) (current rest : List Char) :
    divideFrom depth current (cs ++ rest) = divideFrom depth (cs.reverse ++ current) rest := by
  have hcomma : StaysTogether depth cs :=
    staysTogether_of_forall (fun c hc heq => h c hc (by simp [heq])) depth
  have hbrackets : openBehind depth cs = depth :=
    openBehind_of_forall (fun c hc hmem => h c hc (List.mem_append_left [','] hmem)) depth
  rw [divideFrom_append hcomma, hbrackets]

/-- A text that is not divided, whatever stands around it. -/
def Undivided (cs : List Char) : Prop :=
  ∀ current rest, divideFrom 0 current (cs ++ rest) = divideFrom 0 (cs.reverse ++ current) rest

theorem StaysTogether.undivided {cs : List Char} (h : StaysTogether 0 cs)
    (hclosed : openBehind 0 cs = 0) : Undivided cs := by
  intro current rest
  rw [divideFrom_append h, hclosed]

theorem Undivided.append {a b : List Char} (ha : Undivided a) (hb : Undivided b) :
    Undivided (a ++ b) := by
  intro current rest
  rw [List.append_assoc, ha, hb, List.reverse_append, List.append_assoc]

theorem undivided_nil : Undivided [] := fun _ _ => rfl

theorem undivided_of_forall {cs : List Char} (h : ∀ c ∈ cs, c ∉ ['<', '>', '(', ')', ',']) :
    Undivided cs := by
  intro current rest
  rw [divideFrom_append_of_forall h]

/-- Nothing is divided between brackets of either kind. -/
theorem undivided_enclose {opening closing : Char} (hpair : (opening, closing) ∈ pairs)
    {inner : List Char} (h : IsPaired inner) : Undivided (opening :: (inner ++ [closing])) := by
  have hopening : openBehind 0 [opening] = 1 ∧ StaysTogether 0 [opening] := by
    rcases mem_pairs hpair with ⟨rfl, _⟩ | ⟨rfl, _⟩ <;>
      exact ⟨by decide, staysTogether_of_forall (by decide) 0⟩
  have hclosing : openBehind 1 [closing] = 0 ∧ StaysTogether 1 [closing] := by
    rcases mem_pairs hpair with ⟨_, rfl⟩ | ⟨_, rfl⟩ <;>
      exact ⟨by decide, staysTogether_of_forall (by decide) 1⟩
  have hinner : openBehind 1 inner = 1 := openBehind_inside h.together
  rw [← List.singleton_append]
  refine StaysTogether.undivided ?_ ?_
  · rw [staysTogether_append_iff, hopening.1, staysTogether_append_iff, hinner]
    exact ⟨hopening.2, staysTogether_inside h.together, hclosing.2⟩
  · rw [openBehind_append, hopening.1, openBehind_append, hinner, hclosing.1]

/-- Undivided entries with commas between them are divided at the commas. -/
theorem divideFrom_entries {entry : List Char} {entries : List (List Char)}
    (h : ∀ e ∈ entry :: entries, Undivided e) (current : List Char) :
    divideFrom 0 current (entry ++ entries.flatMap (',' :: ·)) =
      (current.reverse ++ entry) :: entries := by
  induction entries generalizing entry current with
  | nil =>
      rw [h entry List.mem_cons_self, List.flatMap_nil, divideFrom, List.reverse_append,
        List.reverse_reverse]
  | cons next entries ih =>
      have hrest := ih (fun e he => h e (List.mem_cons_of_mem _ he)) []
      rw [h entry List.mem_cons_self, List.flatMap_cons, List.cons_append, divideFrom,
        if_neg (by simp), if_neg (by simp), if_pos (by simp), hrest, List.reverse_append,
        List.reverse_reverse]
      rfl

/-- Entries with commas between them are split into what is left of them without the white space
around them. -/
theorem split_entries {α : Type} {text core : α → List Char} {first : α} {others : List α}
    (hundivided : ∀ x, Undivided (text x)) (htrim : ∀ x, trim (text x) = core x)
    (hne : ∀ x, core x ≠ []) :
    split (text first ++ others.flatMap (',' :: text ·)) = (first :: others).map core := by
  have hentries : ∀ e ∈ text first :: others.map text, Undivided e := by
    intro e he
    rw [← List.map_cons] at he
    obtain ⟨x, _, rfl⟩ := List.mem_map.mp he
    exact hundivided x
  have hdivide : divideFrom 0 [] (text first ++ others.flatMap (',' :: text ·)) =
      (first :: others).map text := by
    have hparts := divideFrom_entries hentries []
    rwa [List.flatMap_map] at hparts
  have hcore : ((first :: others).map text).map trim = (first :: others).map core := by
    rw [List.map_map]
    exact List.map_congr_left fun x _ => htrim x
  rw [split, hdivide, hcore, List.filter_eq_self]
  intro e he
  obtain ⟨x, _, rfl⟩ := List.mem_map.mp he
  simp [hne x]

/-! ## Simple names -/

theorem lastSegment_append {a b : List Char} (ha : a = [] ∨ a.getLast? = some '.')
    (hb : '.' ∉ b) : lastSegment (a ++ b) = b := by
  have htake : (a ++ b).reverse.takeWhile (· ≠ '.') = b.reverse := by
    rw [List.reverse_append]
    refine takeWhile_append_of_head (fun c hc => ?_) fun c hc => ?_
    · refine decide_eq_true fun hdot => hb ?_
      rw [← hdot]
      exact List.mem_reverse.mp hc
    · rw [List.head?_reverse] at hc
      rcases ha with rfl | hlast
      · exact absurd hc (by simp)
      · rw [hlast] at hc
        obtain rfl := Option.some.inj hc
        decide
  rw [lastSegment, htake, List.reverse_reverse]

theorem isBlank_of_isQualified {c : Char} (h : isQualified c = true) : isBlank c = false := by
  cases hc : isBlank c with
  | false => rfl
  | true => rw [isQualified_of_isBlank hc] at h; exact absurd h Bool.false_ne_true

/-- A qualified name, with arguments or without, has no white space around it. -/
theorem trim_type {name args : List Char} (hne : name ≠ [])
    (hname : ∀ c ∈ name, isQualified c = true) (hargs : ∀ c ∈ args.getLast?, isBlank c = false)
    {before after : List Char} (hbefore : ∀ c ∈ before, isBlank c = true)
    (hafter : ∀ c ∈ after, isBlank c = true) :
    trim (before ++ (name ++ args ++ after)) = name ++ args := by
  have hblank : ∀ c ∈ name, isBlank c = false := fun c hc => isBlank_of_isQualified (hname c hc)
  refine trim_append hbefore hafter (by simp [hne]) (fun c hc => ?_) fun c hc => ?_
  · rw [List.head?_append_of_ne_nil _ hne] at hc
    exact hblank c (List.mem_of_mem_head? hc)
  · by_cases hnil : args = []
    · rw [hnil, List.append_nil] at hc
      exact hblank c (List.mem_of_getLast? hc)
    · rw [List.getLast?_append_of_ne_nil _ hnil] at hc
      exact hargs c hc

def endsName (c : Char) : Bool := c = '<' || c = '(' || c = '[' || c = '?'

theorem endsName_of_forall {p : Char → Bool} (hp : ∀ m ∈ ['<', '(', '[', '?'], p m = false)
    {c : Char} (h : p c = true) : (!endsName c) = true := by
  simpa [endsName, and_assoc] using not_mem_of_apply hp h

theorem simpleName_eq (type : List Char) :
    simpleName type = trim (lastSegment (trim ((trim type).takeWhile (!endsName ·)))) := rfl

/-- The simple name of a type ends where its arguments start. -/
theorem simpleName_append {qualifier last gap args : List Char}
    (hqualifier : qualifier = [] ∨ qualifier.getLast? = some '.')
    (hname : qualifier ++ last ≠ []) (hchars : ∀ c ∈ qualifier ++ last, isQualified c = true)
    (hlast : '.' ∉ last) (hgap : ∀ c ∈ gap, isBlank c = true)
    (hstart : ∀ c ∈ args.head?, endsName c = true)
    (hend : ∀ c ∈ (gap ++ args).getLast?, isBlank c = false) :
    simpleName (qualifier ++ last ++ (gap ++ args)) = last := by
  have hwhole : trim (qualifier ++ last ++ (gap ++ args)) = qualifier ++ last ++ (gap ++ args) := by
    simpa using trim_type hname hchars hend (List.forall_mem_nil _) (List.forall_mem_nil _)
  have htake : (qualifier ++ last ++ (gap ++ args)).takeWhile (!endsName ·) =
      qualifier ++ last ++ gap := by
    have hbefore : ∀ c ∈ qualifier ++ last ++ gap, (!endsName c) = true := by
      intro c hc
      rcases List.mem_append.mp hc with hc | hc
      · exact endsName_of_forall (by decide +kernel) (hchars c hc)
      · exact endsName_of_forall (by decide +kernel) (hgap c hc)
    rw [← List.append_assoc]
    exact takeWhile_append_of_head hbefore fun c hc => by rw [hstart c hc]; rfl
  have hbare : trim (qualifier ++ last ++ gap) = qualifier ++ last := by
    have hnone : ∀ c ∈ ([] : List Char).getLast?, isBlank c = false := by simp
    simpa using trim_type hname hchars hnone (List.forall_mem_nil _) hgap
  have hlastBlank : ∀ c ∈ last, isBlank c = false := fun c hc =>
    isBlank_of_isQualified (hchars c (List.mem_append_right _ hc))
  rw [simpleName_eq, hwhole, htake, hbare, lastSegment_append hqualifier hlast,
    trim_of_forall_not_blank hlastBlank]

theorem exists_lastSegment (cs : List Char) : ∃ qualifier, cs = qualifier ++ lastSegment cs ∧
    (qualifier = [] ∨ qualifier.getLast? = some '.') ∧ '.' ∉ lastSegment cs := by
  refine ⟨(cs.reverse.dropWhile (· ≠ '.')).reverse, ?_, ?_, fun hdot => ?_⟩
  · rw [lastSegment, ← List.reverse_append, List.takeWhile_append_dropWhile, List.reverse_reverse]
  · cases hrest : cs.reverse.dropWhile (· ≠ '.') with
    | nil => exact .inl rfl
    | cons c rest =>
        have hhead := List.head?_dropWhile_not (· ≠ '.') cs.reverse
        rw [hrest] at hhead
        obtain rfl : c = '.' := by simpa using hhead
        exact .inr (by rw [List.getLast?_reverse]; rfl)
  · have hinside := List.all_eq_true.mp List.all_takeWhile '.' (List.mem_reverse.mp hdot)
    exact absurd hinside (by decide)

/-- A qualified name is simplified to its last part. -/
theorem simpleName_of_isName {type : List Char} (h : IsName isQualified type) :
    simpleName type = lastSegment type := by
  obtain ⟨qualifier, hparts, hdot, hnodot⟩ := exists_lastSegment type
  have hchars := h.isQualified
  rw [hparts] at h hchars
  have hsimple : simpleName (qualifier ++ lastSegment type ++ ([] ++ [])) = lastSegment type :=
    simpleName_append hdot h.ne_nil hchars hnodot (List.forall_mem_nil _) (by simp) (by simp)
  rwa [List.append_nil, List.append_nil, ← hparts] at hsimple

/-! ## Type parameters -/

theorem afterParameters_brackets {gap inner : List Char} (hgap : ∀ c ∈ gap, isBlank c = true)
    (hinner : IsBalanced '<' '>' inner) (rest : List Char) :
    afterParameters (gap ++ '<' :: (inner ++ '>' :: rest)) = rest := by
  have hclose : partner? '<' '>' 0 ('<' :: (inner ++ '>' :: rest)) =
      some (0 + 1 + byteLength inner) := partner?_balanced hinner (by decide) 0 rest
  have hparts : '<' :: (inner ++ '>' :: rest) = ('<' :: (inner ++ ['>'])) ++ rest := by simp
  have hsize : 0 + 1 + byteLength inner + 1 = byteLength ('<' :: (inner ++ ['>'])) := by
    have hmarks : '<'.utf8Size = 1 ∧ '>'.utf8Size = 1 := by decide
    simp only [byteLength_cons, byteLength_append, byteLength_nil, hmarks]
    omega
  have hstart : trimStart (gap ++ '<' :: (inner ++ '>' :: rest)) = '<' :: (inner ++ '>' :: rest) :=
    trimStart_append hgap (forall_mem_head_cons (by decide) _)
  rw [afterParameters, hstart]
  simp only [hclose, hsize]
  rw [hparts, dropBytes_append]

theorem afterParameters_of_head {header : List Char}
    (h : ∀ c ∈ (trimStart header).head?, c ≠ '<') : afterParameters header = trimStart header := by
  unfold afterParameters
  split
  next cs hcs => exact absurd rfl (h '<' (by rw [hcs]; rfl))
  next => rfl

/-- The type parameters that a header starts with, in front of `rest`, with the white space before
them. Parameters that are never closed leave nothing of the header. -/
inductive IsLeading : (parameters rest : List Char) → Prop
  | blanks {gap rest : List Char} (blank : ∀ c ∈ gap, isBlank c = true)
      (head : ∀ c ∈ rest.head?, isBlank c = false ∧ c ≠ '<') : IsLeading gap rest
  | closed {gap inner : List Char} (blank : ∀ c ∈ gap, isBlank c = true)
      (balanced : IsBalanced '<' '>' inner) (rest : List Char) :
      IsLeading (gap ++ '<' :: (inner ++ ['>'])) rest
  | unclosed {gap inside : List Char} {further : Nat} (blank : ∀ c ∈ gap, isBlank c = true)
      (opened : openAfter '<' '>' 0 inside = some further) : IsLeading (gap ++ '<' :: inside) []

theorem exists_isLeading (header : List Char) : ∃ parameters,
    header = parameters ++ afterParameters header ∧
      IsLeading parameters (afterParameters header) := by
  obtain ⟨hparts, hblank⟩ := takeWhile_append_dropWhile_isBlank header
  by_cases hhead : ∀ c ∈ (trimStart header).head?, c ≠ '<'
  · refine ⟨header.takeWhile isBlank, ?_, ?_⟩
    · rwa [afterParameters_of_head hhead]
    · rw [afterParameters_of_head hhead]
      refine .blanks hblank fun c hc => ⟨?_, hhead c hc⟩
      have hfirst := List.head?_dropWhile_not isBlank header
      rw [← trimStart, hc] at hfirst
      exact hfirst
  · obtain ⟨cs, hstart⟩ : ∃ cs, trimStart header = '<' :: cs := by
      cases hstart : trimStart header with
      | nil => simp [hstart] at hhead
      | cons c cs => exact ⟨cs, by simpa [hstart] using hhead⟩
    have hpartner : partner? '<' '>' 0 ('<' :: cs) =
        closingFrom Char.utf8Size '<' '>' (0 + 1) (0 + '<'.utf8Size) cs := by
      rw [partner?, closingFrom, if_pos rfl]
    rw [← trimStart, hstart] at hparts
    cases hclose : closingFrom Char.utf8Size '<' '>' (0 + 1) (0 + '<'.utf8Size) cs with
    | none =>
        obtain ⟨further, hopened⟩ := exists_openAfter_of_closingFrom_eq_none hclose
        have hrest : afterParameters header = [] := by
          rw [afterParameters, hstart]
          simp only [hpartner, hclose]
        refine ⟨header.takeWhile isBlank ++ '<' :: cs, ?_, ?_⟩
        · rwa [hrest, List.append_nil]
        · rw [hrest]
          exact .unclosed hblank hopened
    | some close =>
        obtain ⟨inner, rest, rfl, _, hbalanced⟩ := exists_openAfter_of_closingFrom hclose
        have hrest : afterParameters header = rest := by
          rw [hparts]
          exact afterParameters_brackets hblank hbalanced rest
        refine ⟨header.takeWhile isBlank ++ '<' :: (inner ++ ['>']), ?_, ?_⟩
        · rw [hrest]
          simpa using hparts
        · rw [hrest]
          exact .closed hblank hbalanced rest

/-- Type parameters do not end in a word that what follows them could go on. -/
theorem IsLeading.apart {parameters rest : List Char} (h : IsLeading parameters rest) :
    (∀ c ∈ parameters.getLast?, isWord c = false) ∨ rest = [] := by
  cases h with
  | blanks blank => exact .inl fun c hc => isWord_of_isBlank (blank c (List.mem_of_getLast? hc))
  | closed =>
      refine .inl fun c hc => ?_
      rw [← List.cons_append, ← List.append_assoc, List.getLast?_concat] at hc
      obtain rfl := Option.some.inj hc
      decide
  | unclosed => exact .inr rfl

/-! ## Constructions -/

/-- White space, or angle brackets with white space around them. -/
def IsBracketed (cs : List Char) : Prop :=
  ∃ before core after, (∀ c ∈ before, isBlank c = true) ∧ (∀ c ∈ after, isBlank c = true) ∧
    (core = [] ∨ ∃ inner, core = '<' :: (inner ++ ['>'])) ∧ cs = before ++ (core ++ after)

theorem areArguments_iff {cs : List Char} : areArguments cs = true ↔ IsBracketed cs := by
  constructor
  · intro h
    obtain ⟨before, after, hbefore, hafter, hparts⟩ := exists_trim cs
    refine ⟨before, trim cs, after, hbefore, hafter, ?_, hparts⟩
    unfold areArguments at h
    split at h
    next hnil => exact .inl hnil
    next rest hcons =>
      have hlast := of_decide_eq_true h
      refine .inr ⟨rest.dropLast, ?_⟩
      rw [hcons, List.dropLast_append_getLast? '>' hlast]
    next => exact absurd h Bool.false_ne_true
  · rintro ⟨before, core, after, hbefore, hafter, hcore, rfl⟩
    rcases hcore with rfl | ⟨inner, rfl⟩
    · have htrim : trim (before ++ ([] ++ after)) = [] := by
        apply trim_of_forall_blank
        intro c hc
        rcases List.mem_append.mp hc with hc | hc
        · exact hbefore c hc
        · exact hafter c hc
      rw [areArguments, htrim]
    · have htrim : trim (before ++ ('<' :: (inner ++ ['>']) ++ after)) =
          '<' :: (inner ++ ['>']) := by
        refine trim_append hbefore hafter (List.cons_ne_nil _ _)
          (forall_mem_head_cons (by decide) _) fun c hc => ?_
        obtain rfl : '>' = c := by simpa [List.getLast?_cons] using hc
        decide
      rw [areArguments, htrim]
      simp

/-- An initializer that constructs a type of the simple name `name` with `new`. Equals signs in
front are passed over. -/
def Constructs (name initializer : List Char) : Prop :=
  ∃ before equals between gap qualifier args rest,
    (∀ c ∈ before, isBlank c = true) ∧ (∀ c ∈ equals, c = '=') ∧
    (∀ c ∈ between, isBlank c = true) ∧ gap ≠ [] ∧ (∀ c ∈ gap, isBlank c = true) ∧
    IsName isQualified (qualifier ++ name) ∧ (qualifier = [] ∨ qualifier.getLast? = some '.') ∧
    '.' ∉ name ∧ IsBracketed args ∧ '(' ∉ args ∧
    initializer = before ++ (equals ++ (between ++ ("new".toList ++ (gap ++ (qualifier ++ name ++
      (args ++ '(' :: rest))))))

/-- What follows the name of a constructed type ends it. -/
theorem IsBracketed.head {args rest : List Char} (h : IsBracketed args) :
    ∀ c ∈ (args ++ '(' :: rest).head?, isQualified c = false := by
  obtain ⟨before, core, after, hbefore, hafter, hcore, rfl⟩ := h
  rcases hcore with rfl | ⟨inner, rfl⟩
  · have hblanks := List.forall_mem_append.mpr ⟨hbefore, hafter⟩
    rw [List.nil_append]
    exact forall_mem_head_blanks isQualified_of_isBlank hblanks (by decide +kernel) rest
  · rw [List.append_assoc]
    exact forall_mem_head_blanks isQualified_of_isBlank hbefore (by decide +kernel) _

/-- White space and equals signs in front of `new` are passed over. -/
theorem exists_expression {before equals between : List Char}
    (hbefore : ∀ c ∈ before, isBlank c = true) (hequals : ∀ c ∈ equals, c = '=')
    (hbetween : ∀ c ∈ between, isBlank c = true) (rest : List Char) :
    ∃ gap, (∀ c ∈ gap, isBlank c = true) ∧
      (trimStart (before ++ (equals ++ (between ++ ("new".toList ++ rest))))).dropWhile (· = '=') =
        gap ++ ("new".toList ++ rest) := by
  have hnew : "new".toList = ['n', 'e', 'w'] := by decide
  have hhead : ∀ c ∈ ("new".toList ++ rest).head?, isBlank c = false := by
    rw [hnew]
    exact forall_mem_head_cons (by decide) _
  -- Without an equals sign, all white space is trimmed at once; otherwise some is left behind it.
  cases equals with
  | nil =>
      have hblanks := List.forall_mem_append.mpr ⟨hbefore, hbetween⟩
      refine ⟨[], List.forall_mem_nil _, ?_⟩
      rw [List.nil_append, ← List.append_assoc, trimStart_append hblanks hhead, hnew]
      rfl
  | cons e equals =>
      obtain rfl : e = '=' := hequals e List.mem_cons_self
      have hstart : trimStart (before ++ ('=' :: equals ++ (between ++ ("new".toList ++ rest)))) =
          '=' :: equals ++ (between ++ ("new".toList ++ rest)) :=
        trimStart_append hbefore (forall_mem_head_cons (by decide) _)
      refine ⟨between, hbetween, ?_⟩
      rw [hstart, hnew]
      apply dropWhile_append_of_head (fun c hc => decide_eq_true (hequals c hc))
      refine forall_mem_head_blanks (fun hblank => decide_eq_false ?_) hbetween (by decide) _
      rintro rfl
      exact absurd hblank (by decide)

/-- What is read up to the name of a constructed type. -/
def readNew : Reader := Reader.sequence [.gap, .word ["new"], .space]

theorem readNew_append {front gap rest : List Char} (hfront : ∀ c ∈ front, isBlank c = true)
    (hne : gap ≠ []) (hgap : ∀ c ∈ gap, isBlank c = true)
    (hrest : ∀ c ∈ rest.head?, isBlank c = false) :
    readNew (front ++ ("new".toList ++ (gap ++ rest))) =
      some (front ++ ("new".toList ++ gap), rest) := by
  have hident : IsIdentifier "new".toList := by decide
  have hfree : PrefixFree ["new"] := by decide
  have hspace : Reader.space (gap ++ rest) = some (gap, rest) := blanks?_append hne hgap hrest
  exact Reader.sequence_cons
    (Reader.gap_append hfront fun c hc => isBlank_of_isWord (hident.head _ c hc))
    (Reader.sequence_cons (Reader.word_append hfree List.mem_cons_self _)
      (Reader.sequence_singleton hspace))

theorem readNew_eq_some {cs t rest : List Char} (h : readNew cs = some (t, rest)) :
    ∃ front gap, (∀ c ∈ front, isBlank c = true) ∧ gap ≠ [] ∧ (∀ c ∈ gap, isBlank c = true) ∧
      cs = front ++ ("new".toList ++ (gap ++ rest)) := by
  obtain ⟨front, _, _, hfront, h, _⟩ := Reader.sequence_cons_eq_some h
  obtain ⟨w, _, _, hword, h, _⟩ := Reader.sequence_cons_eq_some h
  obtain ⟨gap, _, _, hspace, hnil, _⟩ := Reader.sequence_cons_eq_some h
  obtain ⟨_, rfl⟩ := Prod.mk.inj (Option.some.inj hnil)
  obtain ⟨rfl, hfrontBlank⟩ := Reader.gap_eq_some hfront
  obtain ⟨v, hv, rfl, rfl⟩ := Reader.word_eq_some hword
  obtain rfl := List.mem_singleton.mp hv
  obtain ⟨rfl, hne, hgap⟩ := blanks?_eq_some hspace
  exact ⟨front, gap, hfrontBlank, hne, hgap, rfl⟩

theorem constructed?_of_constructs {name initializer : List Char}
    (h : Constructs name initializer) : constructed? initializer = some name := by
  obtain ⟨before, equals, between, gap, qualifier, args, rest, hbefore, hequals, hbetween, hne,
    hgap, hname, hqualifier, hdot, hargs, hparen, rfl⟩ := h
  obtain ⟨front, hfront, hexpression⟩ := exists_expression hbefore hequals hbetween
    (gap ++ (qualifier ++ name ++ (args ++ '(' :: rest)))
  have hread := readNew_append hfront hne hgap fun c hc =>
    isBlank_of_isWord (hname.head (args ++ '(' :: rest) c hc)
  have htype : Reader.qualified (qualifier ++ name ++ (args ++ '(' :: rest)) =
      some (qualifier ++ name, args ++ '(' :: rest) := Reader.named_append hname hargs.head
  have hinside : ∀ c ∈ args, decide (c ≠ '(') = true := fun c hc =>
    decide_eq_true fun heq => hparen (heq ▸ hc)
  have hend : ∀ c ∈ ('(' :: rest).head?, decide (c ≠ '(') = false :=
    forall_mem_head_cons (by decide) rest
  have hsimple : simpleName (qualifier ++ name) = name :=
    (simpleName_of_isName hname).trans (lastSegment_append hqualifier hdot)
  rw [readNew] at hread
  simp only [constructed?, hexpression, hread, htype, Option.bind_eq_bind, Option.bind_some,
    dropWhile_append_of_head hinside hend, takeWhile_append_of_head hinside hend,
    areArguments_iff.mpr hargs, hsimple, if_true]

theorem constructs_of_constructed? {name initializer : List Char}
    (h : constructed? initializer = some name) : Constructs name initializer := by
  simp only [constructed?, Option.bind_eq_bind, Option.bind_eq_some_iff] at h
  obtain ⟨⟨t, afterNew⟩, hread, ⟨type, afterType⟩, htype, h⟩ := h
  obtain ⟨front, gap, hfront, hne, hgap, hexpression⟩ := readNew_eq_some hread
  obtain ⟨rfl, hname, _⟩ := Reader.named_eq_some htype
  obtain ⟨hstart, hbefore⟩ := takeWhile_append_dropWhile_isBlank initializer
  obtain ⟨qualifier, hqualifier, hdot, hnodot⟩ := exists_lastSegment type
  have hequals : trimStart initializer = (trimStart initializer).takeWhile (· = '=') ++
      (trimStart initializer).dropWhile (· = '=') := List.takeWhile_append_dropWhile.symm
  split at h
  next => exact absurd h (by simp)
  next c rest hdrop =>
    split at h
    next hargs =>
      obtain rfl : '(' = c := by
        have hhead := List.head?_dropWhile_not (· ≠ '(') afterType
        rw [hdrop] at hhead
        have hparen : c = '(' := by simpa using hhead
        exact hparen.symm
      obtain rfl : lastSegment type = name :=
        (simpleName_of_isName hname).symm.trans (Option.some.inj h)
      have hafter : afterType.takeWhile (· ≠ '(') ++ '(' :: rest = afterType :=
        hdrop ▸ List.takeWhile_append_dropWhile
      refine ⟨_, (trimStart initializer).takeWhile (· = '='), front, gap, qualifier,
        afterType.takeWhile (· ≠ '('), rest, hbefore,
        fun c hc => of_decide_eq_true (List.all_eq_true.mp List.all_takeWhile c hc), hfront, hne,
        hgap, hqualifier ▸ hname, hdot, hnodot, areArguments_iff.mp hargs, fun hmem => ?_, ?_⟩
      · exact absurd (List.all_eq_true.mp List.all_takeWhile '(' hmem) (by decide)
      · rw [← hqualifier, hafter, ← hexpression, ← hequals]
        exact hstart
    next => exact absurd h (by simp)

/-- The type found in an initializer is the one that it constructs. -/
theorem constructed?_eq_some_iff {name initializer : List Char} :
    constructed? initializer = some name ↔ Constructs name initializer :=
  ⟨constructs_of_constructed?, constructed?_of_constructs⟩

end ClassDiagram.TypeList
