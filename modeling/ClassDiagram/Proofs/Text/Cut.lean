import ClassDiagram.Proofs.Text.Extent

/-!
# Checked cuts

A slice is made of any two offsets. A checked cut is made only of a span that is an extent of the
text: its ends are in order, they lie in the text, and neither falls inside a character. Where both
are made, they are the same; a span that was measured along the text is an extent of it.
-/

namespace ClassDiagram.Text

/-- A byte offset at which a text can be divided between two characters, its ends included. -/
def isBoundary (offset : Nat) : List Char → Bool
  | [] => offset = 0
  | c :: cs => offset = 0 || c.utf8Size ≤ offset && isBoundary (offset - c.utf8Size) cs

theorem isBoundary_iff {offset : Nat} {cs : List Char} :
    isBoundary offset cs = true ↔ ∃ a b, cs = a ++ b ∧ offset = byteLength a := by
  constructor
  · intro h
    induction cs generalizing offset with
    | nil => exact ⟨[], [], rfl, by simpa [isBoundary] using h⟩
    | cons c cs ih =>
        simp only [isBoundary, Bool.or_eq_true, Bool.and_eq_true, decide_eq_true_eq] at h
        rcases h with rfl | ⟨hsize, hrest⟩
        · exact ⟨[], c :: cs, rfl, rfl⟩
        · obtain ⟨a, b, rfl, hoffset⟩ := ih hrest
          exact ⟨c :: a, b, rfl, by rw [byteLength_cons]; omega⟩
  · rintro ⟨a, b, rfl, rfl⟩
    induction a with
    | nil => cases b <;> simp [isBoundary]
    | cons c a ih => simp [isBoundary, ih]

/-- A span with its ends in order, in the text and between characters. -/
structure IsExtent (cs : List Char) (span : Span) : Prop where
  start_le : span.start ≤ span.stop
  stop_le : span.stop ≤ byteLength cs
  start_boundary : isBoundary span.start cs = true
  stop_boundary : isBoundary span.stop cs = true

instance (cs : List Char) (span : Span) : Decidable (IsExtent cs span) :=
  decidable_of_iff (span.start ≤ span.stop ∧ span.stop ≤ byteLength cs ∧
      isBoundary span.start cs = true ∧ isBoundary span.stop cs = true)
    ⟨fun ⟨hle, hstop, hstart, hend⟩ => ⟨hle, hstop, hstart, hend⟩,
      fun ⟨hle, hstop, hstart, hend⟩ => ⟨hle, hstop, hstart, hend⟩⟩

/-- The stretch of a text that a span covers, if the span is an extent of the text. -/
def cut? (cs : List Char) (span : Span) : Option (List Char) :=
  if IsExtent cs span then some (slice cs span) else none

theorem cut?_of_isExtent {cs : List Char} {span : Span} (h : IsExtent cs span) :
    cut? cs span = some (slice cs span) := if_pos h

theorem isExtent_of_isBoundary {cs : List Char} {start stop : Nat} (hle : start ≤ stop)
    (hstart : isBoundary start cs = true) (hstop : isBoundary stop cs = true) :
    IsExtent cs ⟨start, stop⟩ := by
  refine ⟨hle, ?_, hstart, hstop⟩
  obtain ⟨a, b, rfl, rfl⟩ := isBoundary_iff.mp hstop
  rw [byteLength_append]
  exact Nat.le_add_right _ _

/-- The span of a part of a text, measured along the text. -/
theorem isExtent_append {cs a u b : List Char} {start stop : Nat} (hcs : cs = a ++ (u ++ b))
    (hstart : start = byteLength a) (hstop : stop = byteLength (a ++ u)) :
    IsExtent cs ⟨start, stop⟩ := by
  subst hcs hstart hstop
  refine isExtent_of_isBoundary ?_ (isBoundary_iff.mpr ⟨a, _, rfl, rfl⟩)
    (isBoundary_iff.mpr ⟨a ++ u, b, (List.append_assoc a u b).symm, rfl⟩)
  rw [byteLength_append]
  exact Nat.le_add_right _ _

/-- The cut of a part of a text gives the part. -/
theorem cut?_append {cs a u b : List Char} {start stop : Nat} (hcs : cs = a ++ (u ++ b))
    (hstart : start = byteLength a) (hstop : stop = byteLength (a ++ u)) :
    cut? cs ⟨start, stop⟩ = some u := by
  rw [cut?_of_isExtent (isExtent_append hcs hstart hstop), hcs,
    slice_append_of_eq hstart (hstop.trans (byteLength_append a u))]

/-- If every step of a list succeeds, then so do all together. -/
theorem mapM_eq_some {α β : Type} {f : α → Option β} {g : α → β} {xs : List α}
    (h : ∀ x ∈ xs, f x = some (g x)) : xs.mapM f = some (xs.map g) := by
  induction xs with
  | nil => rfl
  | cons x xs ih =>
      rw [List.mapM_cons, h x List.mem_cons_self, ih fun y hy => h y (List.mem_cons_of_mem _ hy)]
      rfl

end ClassDiagram.Text
