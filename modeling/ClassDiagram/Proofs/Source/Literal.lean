import ClassDiagram.Proofs.Source.Program

/-!
# In front of a literal

A literal stands behind its quote: in front of each of its characters stands another one, or a quote
that is program text. So where the skeleton has white space that does not follow a quote, nothing of
a literal is masked, and the code has the same white space there.
-/

namespace ClassDiagram.Source

open Text

/-- Whether the next character may belong to a literal. -/
def State.isInside : State → Bool
  | .within (.string _) => true
  | .within .textBlock => true
  | .within .character => true
  | .passing _ .literal _ => true
  | _ => false

/-- A reading that is passing the rest of a comment mark does not go on inside a literal. -/
def State.LeavesComment : State → Prop
  | .passing _ .comment next => (State.within next).isInside = false
  | _ => True

theorem State.leavesComment_read {state : State} (h : state.LeavesComment)
    (beforeLast last : Option Char) (c : Char) (rest : List Char) :
    (state.read beforeLast last c rest).2.LeavesComment := by
  cases state with
  | within mode =>
      rcases mode with _ | _ | _ | (_ | _) | _ | _ <;> simp only [State.read, Mode.read] <;>
        split <;> simp [State.LeavesComment, State.isInside]
  | passing further layer next =>
      rw [State.read]
      dsimp only
      split
      next => trivial
      next =>
        cases layer with
        | program => trivial
        | literal => trivial
        | comment => exact h

/-- Only inside a literal a character is read as a part of one. -/
theorem State.isInside_of_read {state : State} {beforeLast last : Option Char} {c : Char}
    {rest : List Char} (h : (state.read beforeLast last c rest).1 = .literal) :
    state.isInside = true := by
  cases state with
  | within mode =>
      cases mode with
      | program =>
          simp only [State.read, Mode.read] at h
          split at h <;> exact absurd h (by simp)
      | lineComment => exact absurd h (by simp [State.read, Mode.read])
      | blockComment =>
          simp only [State.read, Mode.read] at h
          split at h <;> exact absurd h (by decide)
      | string verbatim => rfl
      | textBlock => rfl
      | character => rfl
  | passing further layer next =>
      obtain rfl : layer = .literal := h
      rfl

/-- The reading comes inside a literal at a quote, and it stays there at a character of the
literal. -/
theorem State.read_of_isInside {state : State} {beforeLast last : Option Char} {c : Char}
    {rest : List Char} (hsees : state.Sees (c :: rest)) (hleaves : state.LeavesComment)
    (h : (state.read beforeLast last c rest).2.isInside = true) :
    (state.read beforeLast last c rest).1 = .literal ∨
      (state.read beforeLast last c rest).1 = .program ∧ c ∈ ['"', '\''] := by
  cases state with
  | within mode =>
      rcases mode with _ | _ | _ | (_ | _) | _ | _ <;> simp only [State.read, Mode.read] at h ⊢ <;>
        split at h <;> simp_all [State.isInside]
  | passing further layer next =>
      cases layer with
      | literal => exact .inl rfl
      | program =>
          obtain ⟨hfurther, hquotes⟩ := hsees
          obtain ⟨n, rfl⟩ : ∃ n, further = n + 1 := ⟨further - 1, by omega⟩
          obtain rfl := (List.cons_prefix_cons.mp hquotes).1
          exact .inr ⟨rfl, by simp⟩
      | comment =>
          rw [State.read] at h
          dsimp only at h
          split at h
          next =>
            rw [State.LeavesComment] at hleaves
            rw [hleaves] at h
            exact absurd h Bool.false_ne_true
          next => exact absurd h Bool.false_ne_true

/-- In front of a character of a literal stands another one, or a quote that is program text. -/
theorem layer_before_literal {state : State} {beforeLast last : Option Char} {cs : List Char}
    (hsees : state.Sees cs) (hleaves : state.LeavesComment) {before after : List (Char × Layer)}
    {c d : Char} {layer : Layer}
    (h : layersOnto [] state beforeLast last cs =
      before ++ (c, layer) :: (d, .literal) :: after) :
    layer = .literal ∨ layer = .program ∧ c ∈ ['"', '\''] := by
  induction cs generalizing state beforeLast last before with
  | nil => exact absurd h (by simp [layersOnto])
  | cons e cs ih =>
      rw [layersOnto_cons] at h
      cases before with
      | nil =>
          obtain ⟨hhead, hrest⟩ := List.cons.inj h
          obtain ⟨rfl, rfl⟩ := Prod.mk.inj hhead
          cases cs with
          | nil => exact absurd hrest (by simp [layersOnto])
          | cons f cs =>
              rw [layersOnto_cons] at hrest
              have hread := (Prod.mk.inj (List.cons.inj hrest).1).2
              exact State.read_of_isInside hsees hleaves (State.isInside_of_read hread)
      | cons head before =>
          exact ih (State.sees_read hsees beforeLast last)
            (State.leavesComment_read hleaves beforeLast last e cs) (List.cons.inj h).2

/-- Behind program text that is no quote, white space of the skeleton is white space of the code.
-/
theorem flatMap_inCode_of_blank {source : List Char} {before between after : List (Char × Layer)}
    {c : Char} {layer : Layer}
    (h : layers source = before ++ (c, layer) :: (between ++ after))
    (hlayer : layer ≠ .literal) (hc : layer = .program → c ∉ ['"', '\''])
    (hblank : ∀ d ∈ between.flatMap inSkeleton, isBlank d = true) :
    between.flatMap inCode = between.flatMap inSkeleton := by
  induction between generalizing before c layer with
  | nil => rfl
  | cons tagged between ih =>
      obtain ⟨d, next⟩ := tagged
      rw [List.flatMap_cons, List.forall_mem_append] at hblank
      obtain ⟨hd, hbetween⟩ := hblank
      have hnext : next ≠ .literal := by
        rintro rfl
        have hsees : (State.within .program).Sees source := trivial
        have hleaves : (State.within .program).LeavesComment := trivial
        rcases layer_before_literal hsees hleaves h with hliteral | ⟨hprogram, hquote⟩
        · exact hlayer hliteral
        · exact hc hprogram hquote
      have hquote : next = .program → d ∉ ['"', '\''] := by
        rintro rfl
        have hquotes : ∀ m ∈ ['"', '\''], isBlank m = false := by decide
        exact not_mem_of_apply hquotes (hd d (List.mem_singleton_self d))
      have hsame : inCode (d, next) = inSkeleton (d, next) := by
        cases next with
        | program => rfl
        | literal => exact absurd rfl hnext
        | comment => rfl
      have hlater : layers source =
          (before ++ [(c, layer)]) ++ (d, next) :: (between ++ after) := by simpa using h
      rw [List.flatMap_cons, List.flatMap_cons, hsame, ih hlater hnext hquote hbetween]

end ClassDiagram.Source
