import ClassDiagram.Proofs.Text.Extent
import ClassDiagram.Text.Bracket

/-!
# Balanced texts

A text is balanced in a kind of bracket if every bracket in it has its partner in it. A balanced
text between two brackets is passed over when the partner of the first is sought.
-/

namespace ClassDiagram.Text

/-- The number of brackets open after a text, of which `depth` are open before it; `none` if a
closing bracket has no partner. -/
def openAfter (opening closing : Char) (depth : Nat) : List Char → Option Nat
  | [] => some depth
  | c :: cs =>
    if c = opening then openAfter opening closing (depth + 1) cs
    else if c = closing then
      if depth = 0 then none else openAfter opening closing (depth - 1) cs
    else openAfter opening closing depth cs

def IsBalanced (opening closing : Char) (cs : List Char) : Prop :=
  openAfter opening closing 0 cs = some 0

instance (opening closing : Char) (cs : List Char) : Decidable (IsBalanced opening closing cs) :=
  inferInstanceAs (Decidable (_ = _))

variable {opening closing : Char}

theorem openAfter_append (a b : List Char) (depth : Nat) :
    openAfter opening closing depth (a ++ b) =
      (openAfter opening closing depth a).bind fun d => openAfter opening closing d b := by
  induction a generalizing depth with
  | nil => rfl
  | cons c cs ih =>
      simp only [List.cons_append, openAfter]
      split
      · exact ih _
      · split
        · split
          · rfl
          · exact ih _
        · exact ih _

/-- Brackets that are open before a text stay open around it. -/
theorem openAfter_add {cs : List Char} {depth after : Nat}
    (h : openAfter opening closing depth cs = some after) (further : Nat) :
    openAfter opening closing (depth + further) cs = some (after + further) := by
  induction cs generalizing depth with
  | nil => simpa [openAfter] using h
  | cons c cs ih =>
      simp only [openAfter] at h ⊢
      split at h
      next hopen => rw [if_pos hopen, Nat.add_right_comm]; exact ih h
      next hopen =>
        rw [if_neg hopen]
        split at h
        next hclose =>
          rw [if_pos hclose]
          split at h
          next => exact absurd h (by simp)
          next hdepth =>
            rw [if_neg (by omega), Nat.sub_add_comm (by omega)]
            exact ih h
        next hclose => rw [if_neg hclose]; exact ih h

/-- A text without brackets leaves open what is open. -/
theorem openAfter_of_forall_ne {cs : List Char} (h : ∀ c ∈ cs, c ≠ opening ∧ c ≠ closing)
    (depth : Nat) : openAfter opening closing depth cs = some depth := by
  induction cs with
  | nil => rfl
  | cons c cs ih =>
      obtain ⟨hopen, hclose⟩ := h c List.mem_cons_self
      rw [openAfter, if_neg hopen, if_neg hclose]
      exact ih fun d hd => h d (List.mem_cons_of_mem _ hd)

theorem IsBalanced.openAfter {cs : List Char} (h : IsBalanced opening closing cs) (depth : Nat) :
    openAfter opening closing depth cs = some depth := by
  simpa using openAfter_add h depth

theorem IsBalanced.append {a b : List Char} (ha : IsBalanced opening closing a)
    (hb : IsBalanced opening closing b) : IsBalanced opening closing (a ++ b) := by
  rw [IsBalanced, openAfter_append, ha]
  exact hb

theorem IsBalanced.cons {d : Char} {cs : List Char} (h : IsBalanced opening closing cs)
    (hopening : d ≠ opening) (hclosing : d ≠ closing) : IsBalanced opening closing (d :: cs) := by
  rw [IsBalanced, Text.openAfter, if_neg hopening, if_neg hclosing]
  exact h

theorem isBalanced_of_forall_ne {cs : List Char} (h : ∀ c ∈ cs, c ≠ opening ∧ c ≠ closing) :
    IsBalanced opening closing cs := openAfter_of_forall_ne h 0

theorem IsBalanced.enclose {cs : List Char} (h : IsBalanced opening closing cs)
    (hne : opening ≠ closing) : IsBalanced opening closing (opening :: (cs ++ [closing])) := by
  rw [IsBalanced, Text.openAfter, if_pos rfl, openAfter_append, h.openAfter]
  simp [Text.openAfter, hne.symm]

/-- The search for the partner passes over what is no bracket. -/
theorem closingFrom_append_of_forall_ne {α : Type} [DecidableEq α] {size : α → Nat}
    {opening closing : α} {a : List α} (h : ∀ c ∈ a, c ≠ opening ∧ c ≠ closing)
    (depth offset : Nat) (b : List α) :
    closingFrom size opening closing depth offset (a ++ b) =
      closingFrom size opening closing depth (offset + totalSize size a) b := by
  induction a generalizing offset with
  | nil => rfl
  | cons c a ih =>
      obtain ⟨⟨hopening, hclosing⟩, ha⟩ := List.forall_mem_cons.mp h
      rw [List.cons_append, closingFrom, if_neg hopening, if_neg hclosing, ih ha, totalSize_cons,
        Nat.add_assoc]

/-- The search for the partner passes over a text that leaves a bracket open. -/
theorem closingFrom_append {a b : List Char} {depth after offset : Nat}
    (h : openAfter opening closing depth a = some after) :
    closingFrom Char.utf8Size opening closing (depth + 1) offset (a ++ b) =
      closingFrom Char.utf8Size opening closing (after + 1) (offset + byteLength a) b := by
  -- The search counts the bracket it started at, so it is always one deeper than `openAfter`.
  induction a generalizing depth offset with
  | nil =>
      obtain rfl := Option.some.inj h
      rfl
  | cons c cs ih =>
      simp only [openAfter] at h
      simp only [List.cons_append, closingFrom, byteLength_cons, ← Nat.add_assoc]
      split at h
      next hopen => rw [if_pos hopen]; exact ih h
      next hopen =>
        rw [if_neg hopen]
        split at h
        next hclose =>
          split at h
          next => exact absurd h (by simp)
          next hdepth =>
            rw [if_pos hclose, if_neg (by omega), show depth + 1 - 1 = depth - 1 + 1 by omega]
            exact ih h
        next hclose => rw [if_neg hclose]; exact ih h

/-- The search for the partner ends behind a text that leaves nothing open. -/
theorem exists_openAfter_of_closingFrom {depth offset stop : Nat} {cs : List Char}
    (h : closingFrom Char.utf8Size opening closing (depth + 1) offset cs = some stop) :
    ∃ inside after, cs = inside ++ closing :: after ∧ stop = offset + byteLength inside ∧
      openAfter opening closing depth inside = some 0 := by
  induction cs generalizing depth offset with
  | nil => exact absurd h (by simp [closingFrom])
  | cons c cs ih =>
      -- What the search finds behind `c`, told as found in `c :: cs`.
      have hon : ∀ next,
          closingFrom Char.utf8Size opening closing (next + 1) (offset + c.utf8Size) cs =
            some stop →
          (∀ inside, openAfter opening closing depth (c :: inside) =
            openAfter opening closing next inside) →
          ∃ inside after, c :: cs = inside ++ closing :: after ∧
            stop = offset + byteLength inside ∧
            openAfter opening closing depth inside = some 0 := by
        intro next hfound hstep
        obtain ⟨inside, after, rfl, rfl, hopen⟩ := ih hfound
        refine ⟨c :: inside, after, rfl, ?_, (hstep inside).trans hopen⟩
        rw [byteLength_cons, Nat.add_assoc]
      rw [closingFrom] at h
      split at h
      next hopen => exact hon _ h fun inside => by rw [openAfter, if_pos hopen]
      next hopen =>
        split at h
        next hclose =>
          split at h
          next hdepth =>
            obtain rfl := Option.some.inj h
            obtain rfl : depth = 0 := by omega
            exact ⟨[], cs, by rw [hclose]; rfl, rfl, rfl⟩
          next hdepth =>
            rw [show depth + 1 - 1 = (depth - 1) + 1 by omega] at h
            exact hon _ h fun inside => by
              rw [openAfter, if_neg hopen, if_pos hclose, if_neg (by omega)]
        next hclose =>
          exact hon _ h fun inside => by rw [openAfter, if_neg hopen, if_neg hclose]

/-- If the search for the partner fails, then what it started with is open everywhere. -/
theorem exists_openAfter_of_closingFrom_eq_none {depth offset : Nat} {cs : List Char}
    (h : closingFrom Char.utf8Size opening closing (depth + 1) offset cs = none) :
    ∃ after, openAfter opening closing depth cs = some after := by
  induction cs generalizing depth offset with
  | nil => exact ⟨depth, rfl⟩
  | cons c cs ih =>
      rw [closingFrom] at h
      rw [openAfter]
      split at h
      next hopen =>
        rw [if_pos hopen]
        exact ih h
      next hopen =>
        rw [if_neg hopen]
        split at h
        next hclose =>
          rw [if_pos hclose]
          split at h
          next => exact absurd h (by simp)
          next hdepth =>
            rw [if_neg (by omega)]
            rw [show depth + 1 - 1 = (depth - 1) + 1 by omega] at h
            exact ih h
        next hclose =>
          rw [if_neg hclose]
          exact ih h

/-- The partner of a bracket stands after the balanced text that follows it. -/
theorem partner?_balanced {cs : List Char} (h : IsBalanced opening closing cs)
    (hne : opening ≠ closing) (offset : Nat) (rest : List Char) :
    partner? opening closing offset (opening :: (cs ++ closing :: rest)) =
      some (offset + opening.utf8Size + byteLength cs) := by
  rw [partner?, closingFrom, if_pos rfl, closingFrom_append h, closingFrom, if_neg hne.symm,
    if_pos rfl, if_pos (by omega)]

/-- The partner of a bracket is found whatever follows it. -/
theorem closingFrom_eq_some {depth offset n : Nat} {cs : List Char}
    (h : closingFrom Char.utf8Size opening closing depth offset cs = some n) :
    ∃ a b, cs = a ++ closing :: b ∧ n = offset + byteLength a ∧
      ∀ rest, closingFrom Char.utf8Size opening closing depth offset (a ++ closing :: rest) =
        some n := by
  induction cs generalizing depth offset with
  | nil => exact absurd h (by simp [closingFrom])
  | cons c cs ih =>
      -- If the search goes on after `c`, then it does so whatever follows.
      have hon : ∀ further,
          closingFrom Char.utf8Size opening closing further (offset + c.utf8Size) cs = some n →
          (∀ rest, closingFrom Char.utf8Size opening closing depth offset (c :: rest) =
            closingFrom Char.utf8Size opening closing further (offset + c.utf8Size) rest) →
          ∃ a b, c :: cs = a ++ closing :: b ∧ n = offset + byteLength a ∧
            ∀ rest, closingFrom Char.utf8Size opening closing depth offset
              (a ++ closing :: rest) = some n := by
        intro further hfound hstep
        obtain ⟨a, b, rfl, hn, hrest⟩ := ih hfound
        refine ⟨c :: a, b, rfl, by rw [hn, byteLength_cons, Nat.add_assoc], fun rest => ?_⟩
        rw [List.cons_append, hstep, hrest]
      rw [closingFrom] at h
      split at h
      next hopen => exact hon _ h fun rest => by rw [closingFrom, if_pos hopen]
      next hopen =>
        split at h
        next hclose =>
          split at h
          next hdepth =>
            obtain rfl := Option.some.inj h
            refine ⟨[], cs, by rw [hclose]; rfl, by simp, fun rest => ?_⟩
            rw [List.nil_append, closingFrom, if_neg (hclose ▸ hopen), if_pos rfl, if_pos hdepth]
          next hdepth =>
            exact hon _ h fun rest => by
              rw [closingFrom, if_neg hopen, if_pos hclose, if_neg hdepth]
        next hclose =>
          exact hon _ h fun rest => by rw [closingFrom, if_neg hopen, if_neg hclose]

/-- Enough closing brackets close everything that a text leaves open. -/
theorem isSome_closingFrom_append (hne : opening ≠ closing) {depth k : Nat} (offset : Nat)
    {cs : List Char} (h : depth + cs.length ≤ k) :
    (closingFrom Char.utf8Size opening closing depth offset
      (cs ++ List.replicate (k + 1) closing)).isSome = true := by
  induction cs generalizing depth offset with
  | nil =>
      induction k generalizing depth offset with
      | zero =>
          obtain rfl : depth = 0 := by simpa using h
          simp [closingFrom, hne.symm]
      | succ k ih =>
          rw [List.nil_append, List.replicate_succ, closingFrom, if_neg hne.symm, if_pos rfl]
          split
          next => rfl
          next => exact ih _ (by simp only [List.length_nil] at h ⊢; omega)
  | cons c cs ih =>
      rw [List.length_cons] at h
      rw [List.cons_append, closingFrom]
      split
      next => exact ih _ (by omega)
      next =>
        split
        next =>
          split
          next => rfl
          next => exact ih _ (by omega)
        next => exact ih _ (by omega)

/-! ## Nesting -/

theorem nesting_eq_add (opening closing : List Char) (cs : List Char) (depth : Int) :
    cs.foldl (fun depth c => if opening.contains c then depth + 1
      else if closing.contains c then depth - 1 else depth) depth =
      depth + nesting opening closing cs := by
  induction cs generalizing depth with
  | nil => simp [nesting]
  | cons c cs ih =>
      rw [nesting, List.foldl_cons, List.foldl_cons, ih, ih]
      split
      · omega
      · split <;> omega

theorem nesting_append (opening closing a b : List Char) :
    nesting opening closing (a ++ b) = nesting opening closing a + nesting opening closing b := by
  rw [nesting, List.foldl_append, nesting_eq_add]
  rfl

/-- The nesting of a text is what it leaves open. -/
theorem nesting_of_openAfter {cs : List Char} {depth after : Nat}
    (h : openAfter opening closing depth cs = some after) :
    (depth : Int) + nesting [opening] [closing] cs = after := by
  -- The depths of `nesting` are integers; the hypothesis keeps the count of a run from going below.
  induction cs generalizing depth with
  | nil =>
      obtain rfl := Option.some.inj h
      simp [nesting]
  | cons c cs ih =>
      rw [openAfter] at h
      rw [nesting, List.foldl_cons, nesting_eq_add]
      split at h
      next hopen =>
        have := ih h
        rw [if_pos (by simp [hopen])]
        omega
      next hopen =>
        rw [if_neg (by simp [hopen])]
        split at h
        next hclose =>
          split at h
          next => exact absurd h (by simp)
          next hdepth =>
            have := ih h
            rw [if_pos (by simp [hclose])]
            omega
        next hclose =>
          have := ih h
          rw [if_neg (by simp [hclose])]
          omega

theorem nesting_of_balanced {cs : List Char}
    (h : IsBalanced opening closing cs) : nesting [opening] [closing] cs = 0 := by
  have := nesting_of_openAfter h
  omega

/-- No part at the head of a balanced text closes more than it opens. -/
theorem nesting_nonneg {a b : List Char}
    (h : IsBalanced opening closing (a ++ b)) : 0 ≤ nesting [opening] [closing] a := by
  rw [IsBalanced, openAfter_append, Option.bind_eq_some_iff] at h
  obtain ⟨after, hafter, _⟩ := h
  have := nesting_of_openAfter hafter
  omega

end ClassDiagram.Text
