import ClassDiagram.Proofs.Text.Blank
import ClassDiagram.Proofs.Text.Extent
import ClassDiagram.Source.Phrase
import Mathlib.Data.List.Infix

/-!
# What the readers read

For each reader and each kind of splits there are two statements. One says what is split off, for
any text. The other says that a text written in the intended way is split where it was put
together, first of all, whatever follows.
-/

namespace ClassDiagram.Source

open Text

/-! ## Unbroken texts -/

/-- A text without the characters that cannot occur between the access keyword and the name of a
declaration. -/
def Unbroken (cs : List Char) : Prop := ∀ c ∈ cs, endsArguments c = false

theorem Unbroken.append {a b : List Char} (ha : Unbroken a) (hb : Unbroken b) :
    Unbroken (a ++ b) := by
  intro c hc
  rcases List.mem_append.mp hc with hc | hc
  · exact ha c hc
  · exact hb c hc

theorem unbroken_nil : Unbroken [] := fun _ hc => absurd hc List.not_mem_nil

theorem endsArguments_of_forall {p : Char → Bool}
    (hp : ∀ m ∈ [';', '{', '}', '(', ')', '='], p m = false) {c : Char} (h : p c = true) :
    endsArguments c = false := by
  simpa [endsArguments, and_assoc] using not_mem_of_apply hp h

theorem endsArguments_of_isWord {c : Char} (h : isWord c = true) : endsArguments c = false :=
  endsArguments_of_forall (by decide +kernel) h

theorem endsArguments_of_isBlank {c : Char} (h : isBlank c = true) : endsArguments c = false :=
  endsArguments_of_forall (by decide +kernel) h

theorem unbroken_of_forall_isBlank {cs : List Char} (h : ∀ c ∈ cs, isBlank c = true) :
    Unbroken cs := fun c hc => endsArguments_of_isBlank (h c hc)

/-- A text up to its first character that breaks it. -/
theorem takeWhile_unbroken_append {a b : List Char} (ha : Unbroken a) :
    (a ++ b).takeWhile (!endsArguments ·) = a ++ b.takeWhile (!endsArguments ·) :=
  List.takeWhile_append_of_pos fun c hc => by simp [ha c hc]

theorem find?_unbroken_append {a b : List Char} (ha : Unbroken a) :
    (a ++ b).find? endsArguments = b.find? endsArguments := by
  rw [List.find?_append, List.find?_eq_none.mpr fun c hc => by simp [ha c hc], Option.none_or]

/-- The text in front of the first breaking character is determined by the text. -/
theorem append_inj_of_unbroken {a b rest further : List Char} {c d : Char} (ha : Unbroken a)
    (hb : Unbroken b) (hc : endsArguments c = true) (hd : endsArguments d = true)
    (h : a ++ c :: rest = b ++ d :: further) : a = b ∧ c :: rest = d :: further :=
  append_inj_of_head (p := (!endsArguments ·)) (fun e he => by simp [ha e he])
    (fun e he => by simp [hb e he]) (forall_mem_head_cons (by simp [hc]) rest)
    (forall_mem_head_cons (by simp [hd]) further) h

/-! ## Words of a list -/

/-- No word of a list starts with another, so at most one of them stands at the head of a text. -/
def PrefixFree (words : List String) : Prop :=
  ∀ v ∈ words, ∀ w ∈ words, v.toList <+: w.toList → v = w

instance (words : List String) : Decidable (PrefixFree words) :=
  inferInstanceAs (Decidable (∀ v ∈ words, ∀ w ∈ words, _ → _))

/-- Two words of the list cannot both stand at the head of a text. -/
theorem PrefixFree.eq_of_prefix {words : List String} (hfree : PrefixFree words) {v w : String}
    (hv : v ∈ words) (hw : w ∈ words) {cs : List Char} (hvcs : v.toList <+: cs)
    (hwcs : w.toList <+: cs) : v = w := by
  rcases List.prefix_or_prefix_of_prefix hvcs hwcs with hprefix | hprefix
  · exact hfree v hv w hw hprefix
  · exact (hfree w hw v hv hprefix).symm

theorem Reader.word_eq_some {words : List String} {cs a rest : List Char}
    (h : Reader.word words cs = some (a, rest)) :
    ∃ w ∈ words, a = w.toList ∧ cs = a ++ rest := by
  obtain ⟨w, hw, hread⟩ := List.exists_of_findSome?_eq_some h
  obtain ⟨after, hafter, heq⟩ := Option.map_eq_some_iff.mp hread
  obtain ⟨rfl, rfl⟩ := Prod.mk.inj heq
  exact ⟨w, hw, rfl, after?_eq_some_iff.mp hafter⟩

theorem Reader.word_append {words : List String} (hfree : PrefixFree words) {w : String}
    (hw : w ∈ words) (rest : List Char) :
    Reader.word words (w.toList ++ rest) = some (w.toList, rest) := by
  cases hread : Reader.word words (w.toList ++ rest) with
  | none =>
      have hnone := List.findSome?_eq_none_iff.mp hread w hw
      rw [after?_eq_some_iff.mpr rfl] at hnone
      exact absurd hnone (by simp)
  | some parts =>
      obtain ⟨a, after⟩ := parts
      obtain ⟨v, hv, rfl, heq⟩ := Reader.word_eq_some hread
      obtain rfl : v = w := hfree.eq_of_prefix hv hw (List.prefix_append v.toList after)
        (heq ▸ List.prefix_append w.toList rest)
      rw [List.append_cancel_left heq]

theorem Reader.word_eq_none {words : List String} {cs : List Char}
    (h : ∀ w ∈ words, ¬ w.toList <+: cs) : Reader.word words cs = none := by
  cases hread : Reader.word words cs with
  | none => rfl
  | some parts =>
      obtain ⟨a, rest⟩ := parts
      obtain ⟨w, hw, rfl, heq⟩ := Reader.word_eq_some hread
      exact absurd (heq ▸ List.prefix_append _ _) (h w hw)

/-- In front of a word that no word of the list starts or continues, none of them is read. -/
theorem Reader.word_append_eq_none {words : List String} {w : String}
    (hfree : PrefixFree (w :: words)) (hw : w ∉ words) (rest : List Char) :
    Reader.word words (w.toList ++ rest) = none := by
  refine Reader.word_eq_none fun v hv hprefix => hw ?_
  have hsame : v = w := hfree.eq_of_prefix (List.mem_cons_of_mem _ hv) List.mem_cons_self hprefix
    (List.prefix_append w.toList rest)
  rwa [hsame] at hv

/-! ## Names -/

/-- A letter of ASCII or an underscore, and then characters with `p`. -/
def IsName (p : Char → Bool) : List Char → Prop
  | [] => False
  | c :: cs => (c.isAlpha || c = '_') = true ∧ ∀ d ∈ cs, p d = true

instance (p : Char → Bool) : DecidablePred (IsName p)
  | [] => inferInstanceAs (Decidable False)
  | _ :: cs => inferInstanceAs (Decidable (_ ∧ ∀ d ∈ cs, p d = true))

abbrev IsIdentifier : List Char → Prop := IsName isWord

theorem isWord_of_startsName {c : Char} (h : (c.isAlpha || c = '_') = true) : isWord c = true := by
  have hascii : c.toNat < 128 := by
    rcases Bool.or_eq_true_iff.mp h with h | h
    · exact Nat.lt_of_le_of_lt (toNat_of_isAlpha h).2 (by decide)
    · rw [of_decide_eq_true h]
      decide
  rw [isWord, if_pos hascii, isAsciiWord, Char.isAlphanum]
  rcases Bool.or_eq_true_iff.mp h with h | h <;> simp [h]

theorem IsName.ne_nil {p : Char → Bool} {name : List Char} (h : IsName p name) : name ≠ [] := by
  rintro rfl
  exact h

theorem IsName.of_mem {p : Char → Bool} {name : List Char} (h : IsName p name)
    (hp : ∀ c, isWord c = true → p c = true) : ∀ c ∈ name, p c = true := by
  cases name with
  | nil => exact h.elim
  | cons c cs =>
      intro d hd
      rcases List.mem_cons.mp hd with rfl | hd
      · exact hp d (isWord_of_startsName h.1)
      · exact h.2 d hd

theorem IsIdentifier.isWord {name : List Char} (h : IsIdentifier name) :
    ∀ c ∈ name, isWord c = true := h.of_mem fun _ hc => hc

theorem IsName.head {p : Char → Bool} {name : List Char} (h : IsName p name) (rest : List Char) :
    ∀ c ∈ (name ++ rest).head?, isWord c = true := by
  cases name with
  | nil => exact h.elim
  | cons d cs => exact forall_mem_head_cons (isWord_of_startsName h.1) (cs ++ rest)

theorem Reader.named_append {p : Char → Bool} {name rest : List Char} (hname : IsName p name)
    (hrest : ∀ c ∈ rest.head?, p c = false) :
    Reader.named p (name ++ rest) = some (name, rest) := by
  cases name with
  | nil => exact hname.elim
  | cons c cs =>
      rw [List.cons_append, Reader.named, if_pos (by simpa using hname.1),
        takeWhile_append_of_head hname.2 hrest, dropWhile_append_of_head hname.2 hrest]

theorem Reader.named_eq_some {p : Char → Bool} {cs a rest : List Char}
    (h : Reader.named p cs = some (a, rest)) :
    cs = a ++ rest ∧ IsName p a ∧ ∀ c ∈ rest.head?, p c = false := by
  cases cs with
  | nil => simp [Reader.named] at h
  | cons c cs =>
      rw [Reader.named] at h
      split at h
      next hc =>
        obtain ⟨rfl, rfl⟩ := Prod.mk.inj (Option.some.inj h)
        refine ⟨by simp, ⟨by simpa using hc, fun d hd => ?_⟩, fun d hd => ?_⟩
        · exact List.all_eq_true.mp List.all_takeWhile d hd
        · have hnot := List.head?_dropWhile_not p cs
          rw [Option.mem_def.mp hd] at hnot
          exact hnot
      next => simp at h

/-! ## Leads -/

/-- White space with modifiers in it, each of which stands between white space. -/
inductive IsLead (modifiers : List String) : List String → List Char → Prop
  | gap {gap : List Char} (hne : gap ≠ []) (hblank : ∀ c ∈ gap, isBlank c = true) :
      IsLead modifiers [] gap
  | modifier {gap lead : List Char} {w : String} {ws : List String} (hne : gap ≠ [])
      (hblank : ∀ c ∈ gap, isBlank c = true) (hw : w ∈ modifiers)
      (hlead : IsLead modifiers ws lead) : IsLead modifiers (w :: ws) (gap ++ (w.toList ++ lead))

theorem leads_of_no_gap {modifiers : List String} {cs : List Char} (hgap : blanks? cs = none) :
    leads modifiers cs = [] := by
  rw [leads]
  split
  next => rfl
  next gap rest hsome => rw [hgap] at hsome; exact absurd hsome (by simp)

theorem leads_of_no_word {modifiers : List String} {cs gap rest : List Char}
    (hgap : blanks? cs = some (gap, rest)) (hword : Reader.word modifiers rest = none) :
    leads modifiers cs = [(gap, rest)] := by
  rw [leads]
  split
  next hnone => rw [hgap] at hnone; exact absurd hnone (by simp)
  next gap' rest' hsome =>
    obtain ⟨rfl, rfl⟩ := Prod.mk.inj (Option.some.inj (hgap.symm.trans hsome))
    split
    next => rfl
    next w after hw => rw [hword] at hw; exact absurd hw (by simp)

theorem leads_of_word {modifiers : List String} {cs gap rest w after : List Char}
    (hgap : blanks? cs = some (gap, rest)) (hword : Reader.word modifiers rest = some (w, after)) :
    leads modifiers cs =
      (leads modifiers after).map (fun (further, rest) => (gap ++ w ++ further, rest)) ++
        [(gap, rest)] := by
  rw [leads]
  split
  next hnone => rw [hgap] at hnone; exact absurd hnone (by simp)
  next gap' rest' hsome =>
    obtain ⟨rfl, rfl⟩ := Prod.mk.inj (Option.some.inj (hgap.symm.trans hsome))
    split
    next hnone => rw [hword] at hnone; exact absurd hnone (by simp)
    next w' after' hw =>
      obtain ⟨rfl, rfl⟩ := Prod.mk.inj (Option.some.inj (hword.symm.trans hw))
      rfl

/-- What is split off in front of a type is white space with modifiers in it. -/
theorem mem_leads {modifiers : List String} {cs a rest : List Char}
    (h : (a, rest) ∈ leads modifiers cs) : cs = a ++ rest ∧ ∃ ws, IsLead modifiers ws a := by
  -- A further split comes from the text behind a modifier, which is shorter.
  induction hn : cs.length using Nat.strongRecOn generalizing cs a with
  | ind n ih =>
      cases hgap : blanks? cs with
      | none => simp [leads_of_no_gap hgap] at h
      | some parts =>
          obtain ⟨gap, afterGap⟩ := parts
          obtain ⟨rfl, hne, hblank⟩ := blanks?_eq_some hgap
          cases hword : Reader.word modifiers afterGap with
          | none =>
              rw [leads_of_no_word hgap hword, List.mem_singleton] at h
              obtain ⟨rfl, rfl⟩ := Prod.mk.inj h
              exact ⟨rfl, [], .gap hne hblank⟩
          | some parts =>
              obtain ⟨w, after⟩ := parts
              rw [leads_of_word hgap hword, List.mem_append, List.mem_map, List.mem_singleton] at h
              obtain ⟨w, hw, rfl, rfl⟩ := Reader.word_eq_some hword
              rcases h with ⟨⟨further, rest'⟩, hmem, heq⟩ | heq
              · obtain ⟨rfl, rfl⟩ := Prod.mk.inj heq
                have hshort : after.length < n := by
                  have := List.length_pos_iff.mpr hne
                  simp only [List.length_append] at hn
                  omega
                obtain ⟨rfl, ws, hlead⟩ := ih _ hshort hmem rfl
                refine ⟨by simp, w :: ws, ?_⟩
                rw [List.append_assoc]
                exact .modifier hne hblank hw hlead
              · obtain ⟨rfl, rfl⟩ := Prod.mk.inj heq
                exact ⟨rfl, [], .gap hne hblank⟩

/-- A text in front of which a lead ends: no modifier stands at its head as a whole word. -/
def EndsLead (modifiers : List String) (rest : List Char) : Prop :=
  (∀ c ∈ rest.head?, isBlank c = false) ∧
    ∀ w after, Reader.word modifiers rest = some (w, after) →
      ∀ c ∈ after.head?, isBlank c = false

theorem IsLead.ne_nil {modifiers ws : List String} {lead : List Char}
    (h : IsLead modifiers ws lead) : lead ≠ [] := by
  cases h with
  | gap hne => exact hne
  | modifier hne => simp [hne]

theorem leads_gap {modifiers : List String} {gap rest : List Char} (hne : gap ≠ [])
    (hblank : ∀ c ∈ gap, isBlank c = true) (hrest : EndsLead modifiers rest) :
    leads modifiers (gap ++ rest) = [(gap, rest)] := by
  have hgap := blanks?_append hne hblank hrest.1
  cases hword : Reader.word modifiers rest with
  | none => exact leads_of_no_word hgap hword
  | some parts =>
      -- A modifier at the head of `rest` goes on as a longer word, so no lead follows it.
      obtain ⟨w, after⟩ := parts
      rw [leads_of_word hgap hword, leads_of_no_gap (blanks?_eq_none (hrest.2 w after hword))]
      rfl

/-- The split tried first takes the whole of a lead. -/
theorem leads_append {modifiers : List String} (hfree : PrefixFree modifiers)
    (hwords : ∀ w ∈ modifiers, IsIdentifier w.toList) {ws : List String} {lead rest : List Char}
    (hlead : IsLead modifiers ws lead) (hrest : EndsLead modifiers rest) :
    ∃ others, leads modifiers (lead ++ rest) = (lead, rest) :: others := by
  induction hlead with
  | gap hne hblank => exact ⟨[], leads_gap hne hblank hrest⟩
  | @modifier gap lead w ws hne hblank hw hlead ih =>
      obtain ⟨others, hfirst⟩ := ih
      have hstart : ∀ c ∈ (w.toList ++ (lead ++ rest)).head?, isBlank c = false := fun c hc =>
        isBlank_of_isWord ((hwords w hw).head _ c hc)
      have hgap := blanks?_append hne hblank hstart
      rw [List.append_assoc, List.append_assoc, leads_of_word hgap (Reader.word_append hfree hw _),
        hfirst, List.map_cons, List.cons_append]
      dsimp only
      rw [List.append_assoc gap]
      exact ⟨_, rfl⟩

/-- The split tried second leaves the last modifier of a lead to be read as a type. -/
theorem leads_modifier {modifiers : List String} (hfree : PrefixFree modifiers)
    (hwords : ∀ w ∈ modifiers, IsIdentifier w.toList) {ws : List String}
    {front gap rest : List Char} (hfront : IsLead modifiers ws front)
    {w : String} (hw : w ∈ modifiers) (hne : gap ≠ [])
    (hblank : ∀ c ∈ gap, isBlank c = true) (hrest : EndsLead modifiers rest) :
    ∃ others, leads modifiers (front ++ (w.toList ++ (gap ++ rest))) =
      (front ++ (w.toList ++ gap), rest) :: (front, w.toList ++ (gap ++ rest)) :: others := by
  have hstart : ∀ v ∈ modifiers, ∀ further, ∀ c ∈ (v.toList ++ further).head?, isBlank c = false :=
    fun v hv further c hc => isBlank_of_isWord ((hwords v hv).head further c hc)
  induction hfront with
  | gap hneFront hfront =>
      rw [leads_of_word (blanks?_append hneFront hfront (hstart w hw _))
        (Reader.word_append hfree hw _), leads_gap hne hblank hrest]
      exact ⟨[], by simp⟩
  | @modifier before lead v ws hneBefore hbefore hv _ ih =>
      obtain ⟨others, hsplits⟩ := ih
      rw [List.append_assoc, List.append_assoc,
        leads_of_word (blanks?_append hneBefore hbefore (hstart v hv _))
          (Reader.word_append hfree hv _), hsplits]
      simp only [List.map_cons, List.append_assoc, List.cons_append]
      exact ⟨_, rfl⟩

/-- Every lead is among the splits of the text that it starts. -/
theorem IsLead.mem_leads_append {modifiers : List String} (hfree : PrefixFree modifiers)
    (hwords : ∀ w ∈ modifiers, IsIdentifier w.toList) {ws : List String} {lead rest : List Char}
    (h : IsLead modifiers ws lead) (hrest : ∀ c ∈ rest.head?, isBlank c = false) :
    (lead, rest) ∈ leads modifiers (lead ++ rest) := by
  induction h with
  | gap hne hblank =>
      have hgap := blanks?_append hne hblank hrest
      cases hword : Reader.word modifiers rest with
      | none => simp [leads_of_no_word hgap hword]
      | some parts => simp [leads_of_word hgap hword]
  | @modifier gap lead w ws hne hblank hw _ ih =>
      have hstart : ∀ c ∈ (w.toList ++ (lead ++ rest)).head?, isBlank c = false := fun c hc =>
        isBlank_of_isWord ((hwords w hw).head _ c hc)
      rw [List.append_assoc, List.append_assoc,
        leads_of_word (blanks?_append hne hblank hstart) (Reader.word_append hfree hw _)]
      exact List.mem_append_left _ (List.mem_map.mpr ⟨_, ih, by simp⟩)

theorem unbroken_of_isWord {cs : List Char} (h : ∀ c ∈ cs, isWord c = true) : Unbroken cs :=
  fun c hc => endsArguments_of_isWord (h c hc)

theorem IsLead.unbroken {modifiers ws : List String} {lead : List Char}
    (h : IsLead modifiers ws lead) (hwords : ∀ w ∈ modifiers, IsIdentifier w.toList) :
    Unbroken lead := by
  induction h with
  | gap _ hblank => exact unbroken_of_forall_isBlank hblank
  | modifier _ hblank hw _ ih =>
      exact (unbroken_of_forall_isBlank hblank).append
        ((unbroken_of_isWord (hwords _ hw).isWord).append ih)

theorem IsLead.head {modifiers ws : List String} {lead : List Char} (h : IsLead modifiers ws lead) :
    ∀ c ∈ lead.head?, isBlank c = true := by
  cases h with
  | gap _ hblank => exact fun c hc => hblank c (List.mem_of_mem_head? hc)
  | modifier hne hblank _ _ => exact forall_mem_head_gap id hne hblank _

theorem IsLead.mem {modifiers ws : List String} {lead : List Char} (h : IsLead modifiers ws lead) :
    ∀ w ∈ ws, w ∈ modifiers := by
  induction h with
  | gap => exact fun w hw => absurd hw List.not_mem_nil
  | modifier _ _ hw _ ih => exact List.forall_mem_cons.mpr ⟨hw, ih⟩

theorem IsLead.of_subset {modifiers others ws : List String}
    (hsub : ∀ w ∈ modifiers, w ∈ others) {lead : List Char} (h : IsLead modifiers ws lead) :
    IsLead others ws lead := by
  induction h with
  | gap hne hblank => exact .gap hne hblank
  | modifier hne hblank hw _ ih => exact .modifier hne hblank (hsub _ hw) ih

/-- The words of a lead are its modifiers. -/
theorem IsLead.words_append {modifiers ws : List String}
    (hwords : ∀ w ∈ modifiers, IsIdentifier w.toList) {lead : List Char}
    (h : IsLead modifiers ws lead) (rest : List Char) :
    words (lead ++ rest) = ws.map String.toList ++ words rest := by
  induction h with
  | gap _ hblank => exact words_blanks_append hblank rest
  | @modifier gap lead w ws _ hblank hw hlead ih =>
      have hhead : ∃ c ∈ (lead ++ rest).head?, isBlank c = true := by
        obtain ⟨c, further, rfl⟩ := List.exists_cons_of_ne_nil hlead.ne_nil
        exact ⟨c, rfl, hlead.head c rfl⟩
      have hword := words_of_forall_not_blank (hwords w hw).ne_nil fun c hc =>
        isBlank_of_isWord ((hwords w hw).isWord c hc)
      rw [List.append_assoc, List.append_assoc, words_blanks_append hblank,
        words_append_of_head hhead, hword, ih, List.map_cons]
      rfl

/-! ## Sequences -/

theorem Reader.sequence_cons {r : Reader} {rs : List Reader} {cs a middle b rest : List Char}
    (hfirst : r cs = some (a, middle)) (hfurther : Reader.sequence rs middle = some (b, rest)) :
    Reader.sequence (r :: rs) cs = some (a ++ b, rest) := by
  change Reader.andThen r (Reader.sequence rs) cs = _
  simp only [Reader.andThen, hfirst, hfurther, Option.bind_eq_bind, Option.bind_some]

theorem Reader.sequence_singleton {r : Reader} {cs a rest : List Char} (h : r cs = some (a, rest)) :
    Reader.sequence [r] cs = some (a, rest) := by
  rw [Reader.sequence_cons h rfl, List.append_nil]

theorem Reader.sequence_cons_eq_some {r : Reader} {rs : List Reader} {cs t rest : List Char}
    (h : Reader.sequence (r :: rs) cs = some (t, rest)) :
    ∃ a middle b, r cs = some (a, middle) ∧ Reader.sequence rs middle = some (b, rest) ∧
      t = a ++ b := by
  change Reader.andThen r (Reader.sequence rs) cs = _ at h
  simp only [Reader.andThen, Option.bind_eq_bind, Option.bind_eq_some_iff] at h
  obtain ⟨⟨a, middle⟩, hfirst, ⟨b, rest'⟩, hfurther, heq⟩ := h
  obtain ⟨rfl, rfl⟩ := Prod.mk.inj (Option.some.inj heq)
  exact ⟨a, middle, b, hfirst, hfurther, rfl⟩

theorem Reader.char_eq_some {d : Char} {cs a rest : List Char}
    (h : Reader.char d cs = some (a, rest)) : a = [d] ∧ cs = d :: rest := by
  cases cs with
  | nil => simp [Reader.char] at h
  | cons c cs =>
      rw [Reader.char] at h
      split at h
      next hc =>
        obtain ⟨rfl, rfl⟩ := Prod.mk.inj (Option.some.inj h)
        exact ⟨by rw [hc], by rw [hc]⟩
      next => exact absurd h (by simp)

theorem Reader.gap_eq_some {cs a rest : List Char} (h : Reader.gap cs = some (a, rest)) :
    cs = a ++ rest ∧ ∀ c ∈ a, isBlank c = true := by
  obtain ⟨rfl, rfl⟩ := Prod.mk.inj (Option.some.inj h)
  exact takeWhile_append_dropWhile_isBlank cs

theorem Reader.gap_append {gap rest : List Char} (hgap : ∀ c ∈ gap, isBlank c = true)
    (hrest : ∀ c ∈ rest.head?, isBlank c = false) : Reader.gap (gap ++ rest) = some (gap, rest) :=
  congrArg some (blanks_append hgap hrest)

theorem Reader.char_cons (d : Char) (rest : List Char) :
    Reader.char d (d :: rest) = some ([d], rest) := if_pos rfl

theorem Reader.wordEnd_of_head {rest : List Char} (h : ∀ c ∈ rest.head?, isWord c = false) :
    Reader.wordEnd rest = some ([], rest) := by
  rw [Reader.wordEnd, if_pos]
  cases rest <;> simp_all [endsWord]

/-! ## Access keywords -/

theorem accessWords_of_no_word {keywords : List String} {cs : List Char}
    (h : Reader.word keywords cs = none) : accessWords keywords cs = ([], cs) := by
  rw [accessWords]
  split
  next => rfl
  next w after hw => rw [h] at hw; exact absurd hw (by simp)

theorem accessWords_word {keywords : List String} {cs w after gap rest : List Char}
    (hw : Reader.word keywords cs = some (w, after)) (hgap : blanks? after = some (gap, rest)) :
    accessWords keywords cs =
      (w ++ gap ++ (accessWords keywords rest).1, (accessWords keywords rest).2) := by
  rw [accessWords]
  split
  next hnone => rw [hw] at hnone; exact absurd hnone (by simp)
  next w' after' hw' =>
    obtain ⟨rfl, rfl⟩ := Prod.mk.inj (Option.some.inj (hw.symm.trans hw'))
    split
    next hnone => rw [hgap] at hnone; exact absurd hnone (by simp)
    next gap' rest' hgap' =>
      obtain ⟨rfl, rfl⟩ := Prod.mk.inj (Option.some.inj (hgap.symm.trans hgap'))
      rfl

end ClassDiagram.Source
