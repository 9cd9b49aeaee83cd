import ClassDiagram.Proofs.Source.Occurrence

/-!
# Occurrences stand apart

No occurrence reaches into the next one. A phrase that can be read in a text where a word may start
is an occurrence itself, unless it stands inside one that starts earlier.
-/

namespace ClassDiagram.Source

open Text

variable {α : Type} {recognize : List Char → Option α} {size : α → Nat}

/-- A phrase behind `front` is among the occurrences that start at a byte offset, or it stands inside
one of them. -/
def FoundOrInside (recognize : List Char → Option α) (size : α → Nat) (found : List (Nat × α))
    (offset : Nat) (front back : List Char) (phrase : α) : Prop :=
  (offset + byteLength front, phrase) ∈ found ∨
    ∃ place between earlier, front = place ++ between ∧ between ≠ [] ∧
      (offset + byteLength place, earlier) ∈ found ∧
      recognize (between ++ back) = some earlier ∧ between.length < size earlier

theorem FoundOrInside.front_cons {found : List (Nat × α)} {offset : Nat} {c : Char}
    {front back : List Char} {phrase : α}
    (h : FoundOrInside recognize size found (offset + c.utf8Size) front back phrase) :
    FoundOrInside recognize size found offset (c :: front) back phrase := by
  rcases h with hmem | ⟨place, between, earlier, rfl, hbetween, hmem, hover⟩
  · refine .inl ?_
    rwa [byteLength_cons, ← Nat.add_assoc]
  · refine .inr ⟨c :: place, between, earlier, rfl, hbetween, ?_, hover⟩
    rwa [byteLength_cons, ← Nat.add_assoc]

theorem FoundOrInside.found_cons {found : List (Nat × α)} {offset : Nat} {front back : List Char}
    {phrase : α} (h : FoundOrInside recognize size found offset front back phrase)
    (entry : Nat × α) : FoundOrInside recognize size (entry :: found) offset front back phrase := by
  rcases h with hmem | ⟨place, between, earlier, hfront, hbetween, hmem, hover⟩
  · exact .inl (List.mem_cons_of_mem _ hmem)
  · exact .inr ⟨place, between, earlier, hfront, hbetween, List.mem_cons_of_mem _ hmem, hover⟩

/-- A phrase that can be read is found, or it is passed over as a part of what was found earlier. -/
theorem foundOrInside_occurrencesFrom {inside : Nat} {before : Option Char} {offset : Nat}
    {cs front back : List Char} {phrase : α} (hplace : IsPlace cs front back)
    (hstart : startsWord (lastOf before front) = true) (hread : recognize back = some phrase) :
    front.length < inside ∨
      FoundOrInside recognize size (occurrencesFrom recognize size inside before offset cs) offset
        front back phrase := by
  induction cs generalizing inside before offset front with
  | nil => exact absurd hplace isPlace_nil
  | cons c cs ih =>
      obtain ⟨hparts, hne⟩ := hplace
      cases front with
      | nil =>
          rw [List.nil_append] at hparts
          rw [lastOf_nil] at hstart
          cases inside with
          | succ further => exact .inl (Nat.succ_pos further)
          | zero =>
              refine .inr (.inl ?_)
              rw [occurrencesFrom, if_pos hstart, hparts, hread]
              exact List.mem_cons_self
      | cons d front =>
          obtain ⟨rfl, hlater⟩ := List.cons.inj hparts
          rw [lastOf_cons] at hstart
          have hbehind := fun further =>
            @ih further (some c) (offset + c.utf8Size) front ⟨hlater, hne⟩ hstart
          rw [occurrencesFrom.eq_def]
          dsimp only
          split
          next further => exact (hbehind further).imp Nat.succ_lt_succ .front_cons
          next =>
            refine .inr ?_
            split
            next => exact ((hbehind 0).resolve_left (Nat.not_lt_zero _)).front_cons
            next earlier hfound =>
              rcases hbehind (size earlier - 1) with hinside | hbehind
              · -- The phrase stands inside the occurrence at `c`.
                split at hfound
                next =>
                  refine .inr ⟨[], c :: front, earlier, rfl, List.cons_ne_nil _ _,
                    List.mem_cons_self, ?_, ?_⟩
                  · rwa [← hparts]
                  · rw [List.length_cons]
                    omega
                next => exact absurd hfound (by simp)
              · exact hbehind.front_cons.found_cons _

/-- No occurrence starts among the characters that belong to an earlier one. -/
theorem le_of_mem_occurrencesFrom {inside : Nat} {before : Option Char} {offset o : Nat}
    {cs : List Char} {phrase : α}
    (h : (o, phrase) ∈ occurrencesFrom recognize size inside before offset cs) :
    offset + byteLength (cs.take inside) ≤ o := by
  induction cs generalizing inside before offset with
  | nil => exact absurd h List.not_mem_nil
  | cons c cs ih =>
      cases inside with
      | succ further =>
          rw [occurrencesFrom] at h
          have := ih h
          rw [List.take_succ_cons, byteLength_cons]
          omega
      | zero =>
          rw [List.take_zero, byteLength_nil, Nat.add_zero]
          obtain ⟨front, _, _, rfl, _⟩ := mem_occurrencesFrom h
          exact Nat.le_add_right _ _

/-- The occurrences are in the order of the text. -/
theorem pairwise_lt_occurrencesFrom (recognize : List Char → Option α) (size : α → Nat)
    (inside : Nat) (before : Option Char) (offset : Nat) (cs : List Char) :
    (occurrencesFrom recognize size inside before offset cs).Pairwise fun a b => a.1 < b.1 := by
  induction cs generalizing inside before offset with
  | nil => exact .nil
  | cons c cs ih =>
      rw [occurrencesFrom.eq_def]
      dsimp only
      split
      next => exact ih ..
      next =>
        split
        next => exact ih ..
        next phrase hfound =>
          refine List.pairwise_cons.mpr ⟨fun later hlater => ?_, ih ..⟩
          have hle := le_of_mem_occurrencesFrom hlater
          have hpos := c.utf8Size_pos
          dsimp only
          omega

/-- An occurrence ends before the next one starts. -/
theorem pairwise_occurrencesFrom (text : α → List Char)
    (htext : ∀ {cs phrase}, recognize cs = some phrase →
      text phrase ≠ [] ∧ size phrase = (text phrase).length ∧ text phrase <+: cs)
    (inside : Nat) (before : Option Char) (offset : Nat) (cs : List Char) :
    (occurrencesFrom recognize size inside before offset cs).Pairwise fun a b =>
      a.1 + byteLength (text a.2) ≤ b.1 := by
  induction cs generalizing inside before offset with
  | nil => exact .nil
  | cons c cs ih =>
      rw [occurrencesFrom.eq_def]
      dsimp only
      split
      next => exact ih ..
      next =>
        split
        next => exact ih ..
        next phrase hfound =>
          refine List.pairwise_cons.mpr ⟨fun later hlater => ?_, ih ..⟩
          split at hfound
          next =>
            obtain ⟨hne, hsize, rest, hparts⟩ := htext hfound
            have hle := le_of_mem_occurrencesFrom hlater
            obtain ⟨d, further, hphrase⟩ := List.exists_cons_of_ne_nil hne
            rw [hphrase, List.cons_append] at hparts
            obtain ⟨rfl, rfl⟩ := List.cons.inj hparts
            rw [hsize, hphrase, List.length_cons, Nat.add_sub_cancel, List.take_left] at hle
            rw [hphrase, byteLength_cons]
            omega
          next => exact absurd hfound (by simp)

end ClassDiagram.Source
