import Mathlib.Data.List.Nodup

/-!
# Sorting by place

What is found in several passes over a text is put into one order by its offsets. Sorting restores
the order of things with different offsets, and leaves what stands in front of the others where it
is.
-/

namespace ClassDiagram.Source

variable {α β : Type}

theorem filterMap_append_perm (f g : α → Option β) (xs : List α)
    (h : ∀ x ∈ xs, f x = none ∨ g x = none) :
    (xs.filterMap f ++ xs.filterMap g).Perm (xs.filterMap fun x => (f x).or (g x)) := by
  induction xs with
  | nil => exact .nil
  | cons x xs ih =>
      have hxs := ih fun y hy => h y (List.mem_cons_of_mem _ hy)
      rcases h x List.mem_cons_self with hf | hg
      · cases hgx : g x with
        | none => simpa [List.filterMap_cons, hf, hgx] using hxs
        | some y =>
            simp only [List.filterMap_cons, hf, hgx, Option.none_or]
            exact List.perm_middle.trans (hxs.cons y)
      · cases hfx : f x with
        | none => simpa [List.filterMap_cons, hfx, hg] using hxs
        | some y =>
            simp only [List.filterMap_cons, hfx, hg, Option.some_or, List.cons_append]
            exact hxs.cons y

variable (offset : α → Nat)

theorem offset_trans (a b c : α) (hab : decide (offset a ≤ offset b) = true)
    (hbc : decide (offset b ≤ offset c) = true) : decide (offset a ≤ offset c) = true :=
  decide_eq_true (Nat.le_trans (of_decide_eq_true hab) (of_decide_eq_true hbc))

theorem offset_total (a b : α) :
    (decide (offset a ≤ offset b) || decide (offset b ≤ offset a)) = true := by
  simp only [Bool.or_eq_true, decide_eq_true_eq]
  exact Nat.le_total _ _

/-- Sorting by offset restores the order of things with different offsets. -/
theorem mergeSort_eq_of_perm {xs ys : List α} (hperm : xs.Perm ys)
    (hys : ys.Pairwise fun a b => offset a < offset b) :
    (xs.mergeSort fun a b => offset a ≤ offset b) = ys := by
  have hsorted : (xs.mergeSort fun a b => offset a ≤ offset b).Pairwise fun a b =>
      decide (offset a ≤ offset b) = true :=
    List.pairwise_mergeSort (offset_trans offset) (offset_total offset) xs
  have hsame := (List.mergeSort_perm xs fun a b => offset a ≤ offset b).trans hperm
  have hnodup : (ys.map offset).Nodup := by
    rw [List.Nodup, List.pairwise_map]
    exact hys.imp Nat.ne_of_lt
  -- Two things with one offset are the same, so only one order is sorted.
  refine List.Perm.eq_of_pairwise (fun a b ha hb hab hba => ?_) hsorted
    (hys.imp fun h => decide_eq_true (Nat.le_of_lt h)) hsame
  exact List.inj_on_of_nodup_map hnodup (hsame.mem_iff.mp ha) hb
    (Nat.le_antisymm (of_decide_eq_true hab) (of_decide_eq_true hba))

/-- Things with different offsets stand behind each other when they are sorted. -/
theorem pairwise_lt_mergeSort {xs : List α} (h : (xs.map offset).Nodup) :
    (xs.mergeSort fun a b => offset a ≤ offset b).Pairwise fun a b => offset a < offset b := by
  have hsorted := List.pairwise_mergeSort (offset_trans offset) (offset_total offset) xs
  have hnodup : (xs.mergeSort fun a b => offset a ≤ offset b).Pairwise
      fun a b => offset a ≠ offset b :=
    List.pairwise_map.mp (((List.mergeSort_perm xs _).map offset).nodup_iff.mpr h)
  exact hsorted.imp₂ (fun _ _ hle hne => Nat.lt_of_le_of_ne (of_decide_eq_true hle) hne) hnodup

/-- Things in order stay in front of things that stand behind them. -/
theorem mergeSort_append {xs ys : List α} (hxs : xs.Pairwise fun a b => offset a ≤ offset b)
    (hys : ∀ a ∈ xs, ∀ b ∈ ys, offset a ≤ offset b) :
    ((xs ++ ys).mergeSort fun a b => offset a ≤ offset b) =
      xs ++ ys.mergeSort fun a b => offset a ≤ offset b := by
  induction xs with
  | nil => rfl
  | cons a xs ih =>
      obtain ⟨hfirst, hxs⟩ := List.pairwise_cons.mp hxs
      have hrest := ih hxs fun b hb => hys b (List.mem_cons_of_mem _ hb)
      obtain ⟨before, after, hsort, hparts, hbefore⟩ :=
        List.mergeSort_cons (offset_trans offset) (offset_total offset) a (xs ++ ys)
      -- Whatever were sorted in front of the first would have a smaller offset.
      have hnil : before = [] := by
        rw [List.eq_nil_iff_forall_not_mem]
        intro b hb
        have hmem : b ∈ xs ++ ys := by
          rw [← List.mem_mergeSort, hparts]
          exact List.mem_append_left _ hb
        have hle : offset a ≤ offset b := by
          rcases List.mem_append.mp hmem with hmem | hmem
          · exact hfirst b hmem
          · exact hys a List.mem_cons_self b hmem
        have hnot := hbefore b hb
        rw [decide_eq_true hle] at hnot
        exact absurd hnot (by decide)
      rw [hnil, List.nil_append] at hsort hparts
      rw [List.cons_append, hsort, ← hparts, hrest, List.cons_append]

end ClassDiagram.Source
