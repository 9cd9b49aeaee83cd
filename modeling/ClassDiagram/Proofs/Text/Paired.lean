import ClassDiagram.Proofs.Text.Bracket

/-!
# Angle brackets and parentheses

Where types have arguments and parameters, angle brackets and parentheses are counted together,
with one count for both kinds. In a paired text that count is balanced, and so are the parentheses
alone. A text in which both kinds are properly nested is paired.
-/

namespace ClassDiagram.Text

/-- The angle bracket that counts like a bracket of either kind. -/
def angled (c : Char) : Char := if c = '(' then '<' else if c = ')' then '>' else c

structure IsPaired (cs : List Char) : Prop where
  together : IsBalanced '<' '>' (cs.map angled)
  parentheses : IsBalanced '(' ')' cs

instance : DecidablePred IsPaired := fun _ =>
  decidable_of_iff (_ ∧ _) ⟨fun h => ⟨h.1, h.2⟩, fun h => ⟨h.together, h.parentheses⟩⟩

theorem angled_eq_less_iff {c : Char} : angled c = '<' ↔ c = '<' ∨ c = '(' := by
  unfold angled
  split
  next h => simp [h]
  next h =>
    split
    next hclose => simp [hclose]
    next => simp [h]

theorem angled_eq_greater_iff {c : Char} : angled c = '>' ↔ c = '>' ∨ c = ')' := by
  unfold angled
  split
  next h => simp [h]
  next =>
    split
    next hclose => simp [hclose]
    next hclose => simp [hclose]

theorem IsPaired.append {a b : List Char} (ha : IsPaired a) (hb : IsPaired b) :
    IsPaired (a ++ b) where
  together := by
    rw [List.map_append]
    exact ha.together.append hb.together
  parentheses := ha.parentheses.append hb.parentheses

theorem isPaired_of_forall {cs : List Char} (h : ∀ c ∈ cs, c ∉ ['<', '>', '(', ')']) :
    IsPaired cs := by
  refine ⟨isBalanced_of_forall_ne fun d hd => ?_, isBalanced_of_forall_ne fun c hc => ?_⟩
  · obtain ⟨c, hc, rfl⟩ := List.mem_map.mp hd
    have hmarks := h c hc
    simp only [List.mem_cons, List.not_mem_nil, or_false, not_or] at hmarks
    obtain ⟨hless, hgreater, hopen, hclose⟩ := hmarks
    exact ⟨fun heq => (angled_eq_less_iff.mp heq).elim hless hopen,
      fun heq => (angled_eq_greater_iff.mp heq).elim hgreater hclose⟩
  · have hmarks := h c hc
    simp only [List.mem_cons, List.not_mem_nil, or_false, not_or] at hmarks
    exact hmarks.2.2

/-- Without parentheses, only the angle brackets are counted. -/
theorem isPaired_of_balanced {cs : List Char} (hparens : ∀ c ∈ cs, c ≠ '(' ∧ c ≠ ')')
    (h : IsBalanced '<' '>' cs) : IsPaired cs := by
  have hsame : cs.map angled = cs.map id := by
    apply List.map_congr_left
    intro c hc
    obtain ⟨hopen, hclose⟩ := hparens c hc
    simp [angled, hopen, hclose]
  refine ⟨?_, isBalanced_of_forall_ne hparens⟩
  rw [hsame, List.map_id]
  exact h

/-- The brackets of either kind. -/
def pairs : List (Char × Char) := [('<', '>'), ('(', ')')]

theorem mem_pairs {opening closing : Char} (h : (opening, closing) ∈ pairs) :
    opening = '<' ∧ closing = '>' ∨ opening = '(' ∧ closing = ')' := by
  simpa [pairs] using h

theorem angled_of_pair {opening closing : Char} (h : (opening, closing) ∈ pairs) :
    angled opening = '<' ∧ angled closing = '>' := by
  rcases mem_pairs h with ⟨rfl, rfl⟩ | ⟨rfl, rfl⟩ <;> decide

theorem IsPaired.enclose {opening closing : Char} (hpair : (opening, closing) ∈ pairs)
    {cs : List Char} (h : IsPaired cs) : IsPaired (opening :: (cs ++ [closing])) := by
  obtain ⟨hopening, hclosing⟩ := angled_of_pair hpair
  refine ⟨?_, ?_⟩
  · have htogether := h.together.enclose (by decide)
    simpa [hopening, hclosing] using htogether
  · rcases mem_pairs hpair with ⟨rfl, rfl⟩ | ⟨rfl, rfl⟩
    · exact (h.parentheses.append (by decide)).cons (by decide) (by decide)
    · exact h.parentheses.enclose (by decide)

/-- Outside the brackets of a paired text, no bracket of either kind is open. -/
theorem IsPaired.nesting {cs : List Char} (h : IsPaired cs) :
    nesting ['<', '('] ['>', ')'] cs = 0 := by
  have hcount : ∀ depth, cs.foldl (fun (depth : Int) c =>
      if ['<', '('].contains c then depth + 1
      else if ['>', ')'].contains c then depth - 1 else depth) depth =
      (cs.map angled).foldl (fun depth c =>
        if ['<'].contains c then depth + 1
        else if ['>'].contains c then depth - 1 else depth) depth := by
    intro depth
    rw [List.foldl_map]
    congr 1
    funext depth c
    simp only [List.contains_cons, List.contains_nil, Bool.or_false, beq_iff_eq, Bool.or_eq_true,
      angled_eq_less_iff, angled_eq_greater_iff]
  rw [Text.nesting, hcount]
  exact nesting_of_balanced h.together

end ClassDiagram.Text
