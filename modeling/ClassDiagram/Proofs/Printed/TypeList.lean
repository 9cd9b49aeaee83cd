import ClassDiagram.Proofs.Header.Order
import ClassDiagram.Proofs.Printed.Declarator
import ClassDiagram.Proofs.Text.Normal
import Mathlib.Data.List.Infix

/-!
# Lists of types as they are written

Types with commas between them, with any white space around each and any empty entries among them.
A type closes no bracket that it has not opened and leaves none open, and its commas stand between
brackets. Such a list is divided into the types that it is made of. The types found in any other
text can be written as a list that is divided into them.
-/

namespace ClassDiagram

open Text

namespace TypeList

/-! ## Brackets in a list -/

/-- Where no part at the head of a text closes more than is open, nothing is passed over. -/
theorem openBehind_eq_nesting {depth : Nat} {cs : List Char}
    (h : ∀ front back, cs = front ++ back → 0 ≤ depth + nesting ['<', '('] ['>', ')'] front) :
    openBehind depth cs = depth + nesting ['<', '('] ['>', ')'] cs := by
  induction cs generalizing depth with
  | nil => simp [openBehind, nesting]
  | cons c cs ih =>
      have hcount : ∀ front, nesting ['<', '('] ['>', ')'] (c :: front) =
          nesting ['<', '('] ['>', ')'] [c] + nesting ['<', '('] ['>', ')'] front :=
        nesting_append _ _ [c]
      have hnext : ∀ next : Nat, (next : Int) = depth + nesting ['<', '('] ['>', ')'] [c] →
          openBehind next cs = depth + nesting ['<', '('] ['>', ')'] (c :: cs) := by
        intro next hdepth
        rw [hcount cs, ← Int.add_assoc, ← hdepth]
        refine ih fun front back hparts => ?_
        have hfront := h (c :: front) back (by rw [hparts]; rfl)
        rw [hcount front] at hfront
        omega
      rw [openBehind]
      split
      next hopen =>
        refine hnext _ ?_
        rw [nesting, List.foldl_cons, List.foldl_nil, if_pos (by simpa using hopen)]
        omega
      next hopen =>
        split
        next hclose =>
          have hone : nesting ['<', '('] ['>', ')'] [c] = -1 := by
            rw [nesting, List.foldl_cons, List.foldl_nil, if_neg (by simpa using hopen),
              if_pos (by simpa using hclose)]
            rfl
          have hdepth := h [c] cs rfl
          refine hnext _ ?_
          omega
        next hclose =>
          refine hnext _ ?_
          rw [nesting, List.foldl_cons, List.foldl_nil, if_neg (by simpa using hopen),
            if_neg (by simpa using hclose)]
          omega

/-! ## The parts of a list -/

/-- Texts that a list is divided into, if they stand in it with commas between them: the commas of
each stand between brackets, and only the last may leave a bracket open. -/
inductive AreParts : List (List Char) → Prop
  | nil : AreParts []
  | cons {part : List Char} {parts : List (List Char)} (together : StaysTogether 0 part)
      (closed : openBehind 0 part = 0 ∨ parts = []) (others : AreParts parts) :
      AreParts (part :: parts)

theorem areParts_divideFrom (current cs : List Char) (h : StaysTogether 0 current.reverse) :
    AreParts (divideFrom (openBehind 0 current.reverse) current cs) := by
  induction cs generalizing current with
  | nil => exact .cons h (.inr rfl) .nil
  | cons c cs ih =>
      -- Unless it divides the list, `c` belongs to the part that has begun.
      have hon : ∀ next, openBehind (openBehind 0 current.reverse) [c] = next →
          (c = ',' → 0 < openBehind 0 current.reverse) →
          AreParts (divideFrom next (c :: current) cs) := by
        rintro next rfl hcomma
        rw [← openBehind_append, ← List.reverse_cons]
        apply ih
        rw [List.reverse_cons, staysTogether_append_iff]
        refine ⟨h, fun front back hparts => ?_⟩
        obtain ⟨rfl, hc⟩ : front = [] ∧ c = ',' := by
          cases front with
          | nil => exact ⟨rfl, (List.cons.inj hparts).1⟩
          | cons d front => exact absurd (List.cons.inj hparts).2 (by simp)
        exact hcomma hc
      rw [divideFrom]
      split
      next hopen =>
        refine hon _ (by rw [openBehind, if_pos hopen]; rfl) ?_
        rintro rfl
        exact absurd hopen (by decide)
      next hopen =>
        split
        next hclose =>
          refine hon _ (by rw [openBehind, if_neg hopen, if_pos hclose]; rfl) ?_
          rintro rfl
          exact absurd hclose (by decide)
        next hclose =>
          split
          next hends =>
            obtain ⟨_, hdepth⟩ : c = ',' ∧ openBehind 0 current.reverse = 0 := by
              simpa using hends
            have hrest := ih [] (staysTogether_of_forall (List.forall_mem_nil _) 0)
            exact .cons h (.inl hdepth) hrest
          next hends =>
            refine hon _ (by rw [openBehind, if_neg hopen, if_neg hclose]; rfl) ?_
            rintro rfl
            refine Nat.pos_of_ne_zero fun hdepth => hends ?_
            rw [hdepth]
            rfl

/-- The parts are found again where they are put together. -/
theorem divideFrom_intercalate {part : List Char} {parts : List (List Char)}
    (h : AreParts (part :: parts)) :
    divideFrom 0 [] ([','].intercalate (part :: parts)) = part :: parts := by
  induction parts generalizing part with
  | nil =>
      cases h with
      | cons together =>
          have hpart := divideFrom_append together [] []
          rw [List.append_nil, List.append_nil] at hpart
          rw [List.intercalate_singleton, hpart, divideFrom, List.reverse_reverse]
  | cons next parts ih =>
      cases h with
      | cons together closed others =>
          have hclosed := closed.resolve_right (List.cons_ne_nil _ _)
          rw [List.intercalate_cons_cons, List.append_assoc, divideFrom_append together, hclosed,
            List.singleton_append, divideFrom, if_neg (by decide), if_neg (by decide),
            if_pos (by decide), ih others, List.append_nil, List.reverse_reverse]

theorem split_intercalate {parts : List (List Char)} (h : AreParts parts) :
    split ([','].intercalate parts) = (parts.map trim).filter (!·.isEmpty) := by
  cases parts with
  | nil => rfl
  | cons part parts => rw [split, divideFrom_intercalate h]

theorem AreParts.filter {parts : List (List Char)} (h : AreParts parts) (p : List Char → Bool) :
    AreParts (parts.filter p) := by
  induction h with
  | nil => exact .nil
  | cons together closed _ ih =>
      rw [List.filter_cons]
      split
      next => exact .cons together (closed.imp_right fun hnil => by rw [hnil]; rfl) ih
      next => exact ih

/-! ## White space around the parts -/

theorem openBehind_blanks {gap : List Char} (hgap : ∀ c ∈ gap, isBlank c = true) (depth : Nat) :
    openBehind depth gap = depth :=
  openBehind_of_forall (fun c hc => not_mem_of_apply (by decide) (hgap c hc)) depth

theorem staysTogether_blanks {gap : List Char} (hgap : ∀ c ∈ gap, isBlank c = true)
    (depth : Nat) : StaysTogether depth gap := by
  apply staysTogether_of_forall
  rintro c hc rfl
  exact absurd (hgap _ hc) (by decide)

/-- White space opens and closes nothing. -/
theorem openBehind_blanks_append {before after : List Char}
    (hbefore : ∀ c ∈ before, isBlank c = true) (hafter : ∀ c ∈ after, isBlank c = true)
    (depth : Nat) (cs : List Char) :
    openBehind depth (before ++ (cs ++ after)) = openBehind depth cs := by
  rw [openBehind_append, openBehind_blanks hbefore, openBehind_append, openBehind_blanks hafter]

theorem staysTogether_blanks_append_iff {before after : List Char}
    (hbefore : ∀ c ∈ before, isBlank c = true) (hafter : ∀ c ∈ after, isBlank c = true)
    {depth : Nat} {cs : List Char} :
    StaysTogether depth (before ++ (cs ++ after)) ↔ StaysTogether depth cs := by
  rw [staysTogether_append_iff, openBehind_blanks hbefore, staysTogether_append_iff]
  exact ⟨fun h => h.2.1, fun h => ⟨staysTogether_blanks hbefore depth, h,
    staysTogether_blanks hafter _⟩⟩

theorem AreParts.map_trim {parts : List (List Char)} (h : AreParts parts) :
    AreParts (parts.map trim) := by
  induction h with
  | nil => exact .nil
  | @cons part _ together closed _ ih =>
      obtain ⟨before, after, hbefore, hafter, hpart⟩ := exists_trim part
      rw [hpart, staysTogether_blanks_append_iff hbefore hafter] at together
      rw [hpart, openBehind_blanks_append hbefore hafter] at closed
      exact .cons together (closed.imp_right fun hnil => by rw [hnil]; rfl) ih

theorem areParts_split (list : List Char) : AreParts (split list) := by
  have hparts := areParts_divideFrom [] list (staysTogether_of_forall (List.forall_mem_nil _) 0)
  exact hparts.map_trim.filter _

theorem trim_of_mem_split {list item : List Char} (h : item ∈ split list) :
    trim item = item ∧ item ≠ [] := by
  obtain ⟨hmem, hne⟩ := List.mem_filter.mp h
  obtain ⟨part, _, rfl⟩ := List.mem_map.mp hmem
  exact ⟨trim_trim part, by simpa using hne⟩

/-- The types found in a list are a list in which the same types are found. -/
theorem split_intercalate_split (list : List Char) :
    split ([','].intercalate (split list)) = split list := by
  have htrim : (split list).map trim = split list :=
    (List.map_congr_left fun item hitem => (trim_of_mem_split hitem).1).trans (List.map_id' _)
  rw [split_intercalate (areParts_split list), htrim, List.filter_eq_self]
  intro item hitem
  simpa using (trim_of_mem_split hitem).2

end TypeList

namespace Printed

/-! ## Printed lists -/

/-- A type that can stand in a list. Angle brackets and parentheses are counted together. -/
structure ListedType where
  text : List Char
  ne_nil : text ≠ []
  trimmed : trim text = text
  opened : ∀ front ∈ text.inits, 0 ≤ nesting ['<', '('] ['>', ')'] front
  closed : nesting ['<', '('] ['>', ')'] text = 0
  enclosed : ∀ front ∈ text.inits, front ++ [','] <+: text → 0 < nesting ['<', '('] ['>', ')'] front

example : ListedType :=
  ⟨"Map<K, V>".toList, by decide, by decide, by decide, by decide, by decide⟩

/-- An entry of a list: a type or none, and the white space around it. -/
structure ListEntry where
  before : Blanks
  type : Option ListedType
  after : Blanks

def ListEntry.core (entry : ListEntry) : List Char := entry.type.elim [] (·.text)

def ListEntry.text (entry : ListEntry) : List Char :=
  entry.before.text ++ (entry.core ++ entry.after.text)

theorem ListedType.openBehind_eq (type : ListedType) {front : List Char}
    (hpart : front <+: type.text) :
    TypeList.openBehind 0 front = nesting ['<', '('] ['>', ')'] front := by
  have hfront : ∀ a b, front = a ++ b → 0 ≤ (0 : Nat) + nesting ['<', '('] ['>', ')'] a := by
    intro a b hfront
    have ha : a <+: front := ⟨b, hfront.symm⟩
    have hopened := type.opened a ((List.mem_inits a _).mpr (ha.trans hpart))
    omega
  have hcount := TypeList.openBehind_eq_nesting hfront
  omega

theorem ListedType.staysTogether (type : ListedType) : TypeList.StaysTogether 0 type.text := by
  intro front back hparts
  have hcomma : front ++ [','] <+: type.text := ⟨back, by rw [hparts, List.append_assoc]; rfl⟩
  have hpart := (List.prefix_append front [',']).trans hcomma
  have hcount := type.openBehind_eq hpart
  have hinside := type.enclosed front ((List.mem_inits front _).mpr hpart) hcomma
  omega

theorem ListedType.openBehind_text (type : ListedType) : TypeList.openBehind 0 type.text = 0 := by
  have hcount := type.openBehind_eq List.prefix_rfl
  rw [type.closed] at hcount
  exact Int.ofNat_eq_zero.mp hcount

namespace ListEntry

theorem staysTogether (entry : ListEntry) : TypeList.StaysTogether 0 entry.text := by
  rw [text, TypeList.staysTogether_blanks_append_iff entry.before.blank entry.after.blank, core]
  cases entry.type with
  | none => exact TypeList.staysTogether_of_forall (List.forall_mem_nil _) 0
  | some type => exact type.staysTogether

theorem openBehind_text (entry : ListEntry) : TypeList.openBehind 0 entry.text = 0 := by
  rw [text, TypeList.openBehind_blanks_append entry.before.blank entry.after.blank, core]
  cases entry.type with
  | none => rfl
  | some type => exact type.openBehind_text

theorem trim_text (entry : ListEntry) : trim entry.text = entry.core := by
  rw [text, trim_blanks_append entry.before.blank entry.after.blank, core]
  cases entry.type with
  | none => rfl
  | some type => exact type.trimmed

theorem areParts (entries : List ListEntry) : TypeList.AreParts (entries.map text) := by
  induction entries with
  | nil => exact .nil
  | cons entry entries ih => exact .cons entry.staysTogether (.inl entry.openBehind_text) ih

/-- The entries that are left when the empty ones are left out. -/
theorem filter_core (entries : List ListEntry) :
    (entries.map core).filter (!·.isEmpty) = (entries.filterMap type).map (·.text) := by
  induction entries with
  | nil => rfl
  | cons entry entries ih =>
      rw [List.map_cons, List.filter_cons, ih, core]
      cases htype : entry.type with
      | none => rw [List.filterMap_cons_none htype]; rfl
      | some type =>
          have hkept : (!type.text.isEmpty) = true := by simpa using type.ne_nil
          rw [List.filterMap_cons_some htype]
          exact if_pos hkept

theorem split_text (entries : List ListEntry) :
    TypeList.split ([','].intercalate (entries.map text)) =
      (entries.filterMap type).map (·.text) := by
  have htrim : (entries.map text).map trim = entries.map core := by
    rw [List.map_map]
    exact List.map_congr_left fun entry _ => entry.trim_text
  rw [TypeList.split_intercalate (areParts entries), htrim, filter_core]

end ListEntry

end Printed

namespace TypeList

/-- Types that are found in a text: they stand in it one behind the other, without white space
around them, and they are found again where they are written with commas between them. -/
structure AreFoundIn (items : List (List Char)) (list : List Char) : Prop where
  trimmed : ∀ item ∈ items, trim item = item ∧ item ≠ []
  inOrder : InOrder items list
  again : split ([','].intercalate items) = items

/-- A list that is written with any white space and empty entries is divided into its types, and
any other text into types that could be written so. -/
theorem split_text_and_areFoundIn :
    (∀ entries : List Printed.ListEntry, split ([','].intercalate (entries.map (·.text))) =
        (entries.filterMap (·.type)).map (·.text)) ∧
      ∀ list, AreFoundIn (split list) list := by
  refine ⟨Printed.ListEntry.split_text, fun list => ⟨?_, ?_, ?_⟩⟩
  · exact fun _ => trim_of_mem_split
  · exact inOrder_split list
  · exact split_intercalate_split list

/-- A bracket that is never closed keeps the rest of a list together. -/
example : split " Map<K, V>, ,Foo(a, b) , C<D, E".toList =
    ["Map<K, V>".toList, "Foo(a, b)".toList, "C<D, E".toList] := by decide

end TypeList

end ClassDiagram
