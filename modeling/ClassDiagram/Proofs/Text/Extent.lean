import ClassDiagram.Text.Extent

/-!
# Cutting texts at byte offsets

An offset that was found by measuring a leading part of a text cuts the text exactly after that
part.
-/

namespace ClassDiagram.Text

/-- A statement about the characters of a text is decided along the text, and not over all
characters. -/
instance (priority := 2000) decidableForallMem {α : Type} (p : α → Prop) [DecidablePred p]
    (xs : List α) : Decidable (∀ x, x ∈ xs → p x) := List.decidableBAll p xs

@[simp]
theorem byteLength_nil : byteLength [] = 0 := rfl

@[simp]
theorem byteLength_cons (c : Char) (cs : List Char) :
    byteLength (c :: cs) = c.utf8Size + byteLength cs := rfl

@[simp]
theorem byteLength_append (a b : List Char) :
    byteLength (a ++ b) = byteLength a + byteLength b := by
  induction a with
  | nil => simp
  | cons c cs ih => simp [ih, Nat.add_assoc]

/-- The number of bytes of a list, of which `size` gives those of each member. -/
def totalSize {α : Type} (size : α → Nat) (cs : List α) : Nat :=
  cs.foldr (fun c n => size c + n) 0

@[simp]
theorem totalSize_cons {α : Type} (size : α → Nat) (c : α) (cs : List α) :
    totalSize size (c :: cs) = size c + totalSize size cs := rfl

theorem totalSize_utf8Size (cs : List Char) : totalSize Char.utf8Size cs = byteLength cs := rfl

theorem totalSize_one {α : Type} (cs : List α) : totalSize (fun _ => 1) cs = cs.length := by
  induction cs with
  | nil => rfl
  | cons c cs ih => rw [totalSize_cons, ih, List.length_cons, Nat.add_comm]

@[simp]
theorem charCount_zero (n : Nat) (cs : List Char) : charCount 0 n cs = n := by
  cases cs <;> simp [charCount]

theorem charCount_append (a b : List Char) (n : Nat) :
    charCount (byteLength a) n (a ++ b) = n + a.length := by
  induction a generalizing n with
  | nil => simp
  | cons c cs ih =>
      have hpos := c.utf8Size_pos
      simp only [List.cons_append, byteLength_cons, charCount, List.length_cons]
      rw [if_neg (by omega), Nat.add_sub_cancel_left, ih]
      omega

@[simp]
theorem dropBytes_append (a b : List Char) : dropBytes (byteLength a) (a ++ b) = b := by
  simp [dropBytes, charCount_append]

@[simp]
theorem takeBytes_append (a b : List Char) : takeBytes (byteLength a) (a ++ b) = a := by
  simp [takeBytes, charCount_append]

/-- The part between two measured parts. -/
theorem slice_append (a b c : List Char) :
    slice (a ++ (b ++ c)) ⟨byteLength a, byteLength a + byteLength b⟩ = b := by
  simp [slice]

/-- As `slice_append`, for offsets that are only known to be equal to the measures. -/
theorem slice_append_of_eq {a b c : List Char} {start stop : Nat} (hstart : start = byteLength a)
    (hstop : stop = byteLength a + byteLength b) : slice (a ++ (b ++ c)) ⟨start, stop⟩ = b := by
  rw [hstart, hstop, slice_append]

theorem byteLength_pos {cs : List Char} (h : cs ≠ []) : 0 < byteLength cs := by
  cases cs with
  | nil => exact absurd rfl h
  | cons c cs =>
      have hpos := c.utf8Size_pos
      simp only [byteLength_cons]
      omega

theorem eq_nil_of_byteLength {cs : List Char} (h : byteLength cs = 0) : cs = [] := by
  by_cases hne : cs = []
  · exact hne
  · have := byteLength_pos hne
    omega

/-- Two divisions of a text at one offset are the same. -/
theorem append_inj_of_byteLength {a b c d : List Char} (h : a ++ b = c ++ d)
    (hsize : byteLength a = byteLength c) : a = c ∧ b = d := by
  rcases List.append_eq_append_iff.mp h with ⟨between, rfl, rfl⟩ | ⟨between, rfl, rfl⟩
  · rw [byteLength_append] at hsize
    obtain rfl := eq_nil_of_byteLength (show byteLength between = 0 by omega)
    simp
  · rw [byteLength_append] at hsize
    obtain rfl := eq_nil_of_byteLength (show byteLength between = 0 by omega)
    simp

/-- Between two places of a text stands what the front of the later one has in addition. -/
theorem exists_between_of_byteLength_le {a b c d : List Char} (h : a ++ b = c ++ d)
    (hle : byteLength a ≤ byteLength c) : ∃ between, c = a ++ between ∧ b = between ++ d := by
  rcases List.append_eq_append_iff.mp h with ⟨between, hc, hb⟩ | ⟨between, ha, hd⟩
  · exact ⟨between, hc, hb⟩
  · rw [ha, byteLength_append] at hle
    obtain rfl := eq_nil_of_byteLength (show byteLength between = 0 by omega)
    refine ⟨[], ?_, ?_⟩
    · rw [ha, List.append_nil, List.append_nil]
    · exact hd.symm

/-- Of two divisions of a text, the one after fewer characters is after fewer bytes. -/
theorem byteLength_lt_of_append {a b c d : List Char} (h : a ++ b = c ++ d)
    (hlength : a.length < c.length) : byteLength a < byteLength c := by
  rcases List.append_eq_append_iff.mp h with ⟨between, rfl, _⟩ | ⟨between, rfl, _⟩
  · have hne : between ≠ [] := by
      rintro rfl
      simp at hlength
    have := byteLength_pos hne
    rw [byteLength_append]
    omega
  · rw [List.length_append] at hlength
    omega

theorem charCount_append_of_le {bytes : Nat} {a : List Char} (h : bytes ≤ byteLength a) (n : Nat)
    (b : List Char) : charCount bytes n (a ++ b) = charCount bytes n a := by
  induction a generalizing bytes n with
  | nil =>
      obtain rfl := Nat.le_zero.mp h
      simp
  | cons c cs ih =>
      simp only [List.cons_append, charCount]
      split
      next => rfl
      next =>
        rw [byteLength_cons] at h
        exact ih (by omega) _

theorem charCount_le (bytes n : Nat) (cs : List Char) : charCount bytes n cs ≤ n + cs.length := by
  induction cs generalizing bytes n with
  | nil => simp [charCount]
  | cons c cs ih =>
      simp only [charCount, List.length_cons]
      split
      next => omega
      next =>
        have := ih (bytes - c.utf8Size) (n + 1)
        omega

/-- A text that is long enough is cut whatever follows it. -/
theorem takeBytes_append_of_le {bytes : Nat} {a : List Char} (h : bytes ≤ byteLength a)
    (b : List Char) : takeBytes bytes (a ++ b) = takeBytes bytes a := by
  have hcount := charCount_le bytes 0 a
  rw [takeBytes, takeBytes, charCount_append_of_le h, List.take_append_of_le_length (by omega)]

/-- A stretch that starts between two characters of a text and ends in it. -/
theorem slice_append_of_le {a b : List Char} {start stop : Nat} (hstart : start = byteLength a)
    (hstop : stop ≤ byteLength (a ++ b)) (c : List Char) :
    slice (a ++ b ++ c) ⟨start, stop⟩ = slice (a ++ b) ⟨start, stop⟩ := by
  rw [byteLength_append] at hstop
  simp only [slice, hstart, List.append_assoc, dropBytes_append]
  exact takeBytes_append_of_le (by omega) c

/-- A character with a property is none of the marks that lack it. -/
theorem not_mem_of_apply {p : Char → Bool} {marks : List Char} (h : ∀ m ∈ marks, p m = false)
    {c : Char} (hc : p c = true) : c ∉ marks := by
  intro hmem
  rw [h c hmem] at hc
  exact Bool.false_ne_true hc

theorem forall_mem_head_cons {p : Char → Prop} {c : Char} (h : p c) (cs : List Char) :
    ∀ d ∈ (c :: cs).head?, p d := by
  intro d hd
  obtain rfl := Option.some.inj hd
  exact h

end ClassDiagram.Text
