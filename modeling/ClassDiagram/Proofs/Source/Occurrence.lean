import ClassDiagram.Proofs.Text.Extent
import ClassDiagram.Source.Occurrence

/-!
# Occurrences in parts of a text

Where no occurrence reaches across the border between two parts, the occurrences in a text are
those in its first part and then those in its second.
-/

namespace ClassDiagram.Source

open Text

variable {α : Type} {recognize : List Char → Option α} {size : α → Nat}

/-- The last character of a text that stands after `before`. -/
def lastOf (before : Option Char) (cs : List Char) : Option Char := cs.getLast?.or before

@[simp]
theorem lastOf_nil (before : Option Char) : lastOf before [] = before := rfl

@[simp]
theorem lastOf_cons (before : Option Char) (c : Char) (cs : List Char) :
    lastOf before (c :: cs) = lastOf (some c) cs := by
  cases cs <;> simp [lastOf, List.getLast?_cons]

@[simp]
theorem lastOf_append (before : Option Char) (a b : List Char) :
    lastOf before (a ++ b) = lastOf (lastOf before a) b := by
  induction a generalizing before with
  | nil => rfl
  | cons c cs ih => simp [ih]

/-- What stands in front of a text that is not empty does not matter for its last character. -/
theorem lastOf_congr {cs : List Char} (h : cs ≠ []) (before before' : Option Char) :
    lastOf before cs = lastOf before' cs := by
  obtain ⟨c, hc⟩ := Option.ne_none_iff_exists'.mp (mt List.getLast?_eq_none_iff.mp h)
  rw [lastOf, lastOf, hc, Option.some_or, Option.some_or]

/-- A place in a text: what stands before it, and what from it on. -/
def IsPlace (cs front back : List Char) : Prop := cs = front ++ back ∧ back ≠ []

theorem isPlace_nil {front back : List Char} : ¬ IsPlace [] front back := by
  rintro ⟨hparts, hne⟩
  exact hne (List.append_eq_nil_iff.mp hparts.symm).2

theorem isPlace_cons {c : Char} {cs front back : List Char} (h : IsPlace cs front back) :
    IsPlace (c :: cs) (c :: front) back := ⟨congrArg (c :: ·) h.1, h.2⟩

/-- A place in two parts of a text is a place in one of them. -/
theorem IsPlace.of_append {a b front back : List Char} (h : IsPlace (a ++ b) front back) :
    (∃ between, back = between ++ b ∧ IsPlace a front between) ∨
      ∃ between, front = a ++ between ∧ IsPlace b between back := by
  obtain ⟨hparts, hne⟩ := h
  rcases List.append_eq_append_iff.mp hparts with ⟨between, rfl, rfl⟩ | ⟨between, rfl, rfl⟩
  · exact .inr ⟨between, rfl, rfl, hne⟩
  · -- At the border, the place belongs to the second part.
    by_cases hbetween : between = []
    · subst hbetween
      exact .inr ⟨[], by simp, rfl, by simpa using hne⟩
    · exact .inl ⟨between, rfl, rfl, hbetween⟩

/-- Characters that belong to an earlier occurrence are passed over. -/
theorem occurrencesFrom_inside (a b : List Char) (before : Option Char) (offset : Nat) :
    occurrencesFrom recognize size a.length before offset (a ++ b) =
      occurrencesFrom recognize size 0 (lastOf before a) (offset + byteLength a) b := by
  induction a generalizing before offset with
  | nil => rfl
  | cons c cs ih =>
      rw [List.cons_append, List.length_cons, occurrencesFrom, ih, lastOf_cons, byteLength_cons,
        Nat.add_assoc]

/-- An occurrence is a phrase that is read at a place of the text where a word may start. -/
theorem mem_occurrencesFrom {inside : Nat} {before : Option Char} {offset o : Nat}
    {cs : List Char} {phrase : α}
    (h : (o, phrase) ∈ occurrencesFrom recognize size inside before offset cs) :
    ∃ front back, IsPlace cs front back ∧ o = offset + byteLength front ∧
      startsWord (lastOf before front) = true ∧ recognize back = some phrase := by
  induction cs generalizing inside before offset with
  | nil => exact absurd h List.not_mem_nil
  | cons c cs ih =>
      have hrest : ∀ further, (o, phrase) ∈
          occurrencesFrom recognize size further (some c) (offset + c.utf8Size) cs →
          ∃ front back, IsPlace (c :: cs) front back ∧ o = offset + byteLength front ∧
            startsWord (lastOf before front) = true ∧ recognize back = some phrase := by
        intro further hmem
        obtain ⟨front, back, hplace, ho, hstart, hread⟩ := ih hmem
        refine ⟨c :: front, back, isPlace_cons hplace, ?_, by simpa using hstart, hread⟩
        rw [ho, byteLength_cons, Nat.add_assoc]
      cases inside with
      | succ further =>
          rw [occurrencesFrom] at h
          exact hrest further h
      | zero =>
          rw [occurrencesFrom] at h
          split at h
          next => exact hrest 0 h
          next found hread =>
            rcases List.mem_cons.mp h with hhead | hmem
            · obtain ⟨rfl, rfl⟩ := Prod.mk.inj hhead
              split at hread
              next hstart => exact ⟨[], c :: cs, ⟨rfl, List.cons_ne_nil _ _⟩, rfl, hstart, hread⟩
              next => exact absurd hread (by simp)
            · exact hrest _ hmem

/-- A phrase at the head of a text is its first occurrence. -/
theorem occurrencesFrom_phrase {text rest : List Char} {phrase : α} {before : Option Char}
    (hstart : startsWord before = true) (hne : text ≠ [])
    (hread : recognize (text ++ rest) = some phrase) (hsize : size phrase = text.length)
    (offset : Nat) :
    occurrencesFrom recognize size 0 before offset (text ++ rest) =
      (offset, phrase) ::
        occurrencesFrom recognize size 0 (lastOf before text) (offset + byteLength text) rest := by
  cases text with
  | nil => exact absurd rfl hne
  | cons c cs =>
      rw [List.cons_append] at hread ⊢
      rw [occurrencesFrom, if_pos hstart, hread]
      dsimp only
      rw [hsize, List.length_cons, Nat.add_sub_cancel, occurrencesFrom_inside, lastOf_cons,
        byteLength_cons, Nat.add_assoc]

/-- The occurrences that start in the first part, if each of them fits into it, and then those in
the second part. -/
theorem occurrencesFrom_append (recognize : List Char → Option α) (size : α → Nat)
    {a b : List Char} {inside : Nat} {before : Option Char}
    (hinside : inside ≤ a.length)
    (hfit : ∀ front back phrase, IsPlace a front back →
      startsWord (lastOf before front) = true → recognize (back ++ b) = some phrase →
      size phrase ≤ back.length)
    (offset : Nat) :
    ∃ found, occurrencesFrom recognize size inside before offset (a ++ b) =
        found ++
          occurrencesFrom recognize size 0 (lastOf before a) (offset + byteLength a) b ∧
      ∀ o phrase, (o, phrase) ∈ found → ∃ front back, IsPlace a front back ∧
        o = offset + byteLength front ∧ startsWord (lastOf before front) = true ∧
          recognize (back ++ b) = some phrase := by
  induction a generalizing inside before offset with
  | nil =>
      obtain rfl := Nat.le_zero.mp hinside
      exact ⟨[], rfl, by simp⟩
  | cons c cs ih =>
      -- What is found behind `c`, told as found in `c :: cs`; both kinds of step go on this way.
      have hrest : ∀ further, further ≤ cs.length → ∃ found,
          occurrencesFrom recognize size further (some c) (offset + c.utf8Size) (cs ++ b) =
            found ++ occurrencesFrom recognize size 0 (lastOf before (c :: cs))
              (offset + byteLength (c :: cs)) b ∧
          ∀ o phrase, (o, phrase) ∈ found → ∃ front back, IsPlace (c :: cs) front back ∧
            o = offset + byteLength front ∧ startsWord (lastOf before front) = true ∧
              recognize (back ++ b) = some phrase := by
        intro further hfurther
        obtain ⟨found, heq, hfound⟩ := @ih further (some c) hfurther
          (fun front back phrase hplace hstart hread =>
            hfit (c :: front) back phrase (isPlace_cons hplace) (by simpa using hstart) hread)
          (offset + c.utf8Size)
        refine ⟨found, ?_, fun o phrase hmem => ?_⟩
        · rw [heq, lastOf_cons, byteLength_cons, Nat.add_assoc]
        · obtain ⟨front, back, hplace, ho, hstart, hread⟩ := hfound o phrase hmem
          refine ⟨c :: front, back, isPlace_cons hplace, ?_, by simpa using hstart, hread⟩
          rw [ho, byteLength_cons, Nat.add_assoc]
      rw [List.cons_append]
      cases inside with
      | succ further =>
          rw [occurrencesFrom]
          exact hrest further (Nat.le_of_succ_le_succ hinside)
      | zero =>
          rw [occurrencesFrom]
          split
          next => exact hrest 0 (Nat.zero_le _)
          next phrase hread =>
            have hstart : startsWord before = true := by
              cases hbefore : startsWord before with
              | true => rfl
              | false => simp [hbefore] at hread
            rw [if_pos hstart] at hread
            have hplace : IsPlace (c :: cs) [] (c :: cs) := ⟨rfl, List.cons_ne_nil _ _⟩
            -- An occurrence at `c` fits into `a`, so its further characters end within `cs`.
            have hsize := hfit [] (c :: cs) phrase hplace hstart hread
            rw [List.length_cons] at hsize
            obtain ⟨found, heq, hfound⟩ := hrest (size phrase - 1) (by omega)
            refine ⟨(offset, phrase) :: found, by rw [heq, List.cons_append], ?_⟩
            intro o p hmem
            rcases List.mem_cons.mp hmem with hhead | hmem
            · obtain ⟨rfl, rfl⟩ := Prod.mk.inj hhead
              exact ⟨[], c :: cs, hplace, rfl, hstart, hread⟩
            · exact hfound o p hmem

/-- A part of a text in which nothing starts that is recognized. -/
def IsQuiet (recognize : List Char → Option α) (before : Option Char) (a b : List Char) : Prop :=
  ∀ front back, IsPlace a front back → startsWord (lastOf before front) = true →
    recognize (back ++ b) = none

theorem isQuiet_nil {before : Option Char} {b : List Char} : IsQuiet recognize before [] b :=
  fun _ _ hplace => absurd hplace isPlace_nil

theorem IsQuiet.append {a b c : List Char} {before : Option Char}
    (ha : IsQuiet recognize before a (b ++ c)) (hb : IsQuiet recognize (lastOf before a) b c) :
    IsQuiet recognize before (a ++ b) c := by
  intro front back hplace hstart
  rcases hplace.of_append with ⟨between, rfl, hpart⟩ | ⟨between, rfl, hpart⟩
  · rw [List.append_assoc]
    exact ha front between hpart hstart
  · exact hb between back hpart (by simpa using hstart)

/-- A quiet part has no occurrences. -/
theorem occurrencesFrom_of_quiet (size : α → Nat) {a b : List Char} {before : Option Char}
    (hquiet : IsQuiet recognize before a b) (offset : Nat) :
    occurrencesFrom recognize size 0 before offset (a ++ b) =
      occurrencesFrom recognize size 0 (lastOf before a) (offset + byteLength a) b := by
  obtain ⟨found, heq, hfound⟩ := occurrencesFrom_append recognize size
    (Nat.zero_le a.length)
    (fun front back phrase hplace hstart hread =>
      absurd hread (by rw [hquiet front back hplace hstart]; simp))
    offset
  have hnone : found = [] := by
    apply List.eq_nil_iff_forall_not_mem.mpr
    intro entry hmem
    obtain ⟨front, back, hplace, _, hstart, hread⟩ := hfound entry.1 entry.2 hmem
    rw [hquiet front back hplace hstart] at hread
    exact absurd hread (by simp)
  rw [heq, hnone, List.nil_append]

/-- In front of the first occurrence of a phrase a text is quiet. -/
theorem occurrencesFrom_eq_cons {before : Option Char} {offset o : Nat} {phrase : α}
    {others : List (Nat × α)} {cs : List Char}
    (h : occurrencesFrom recognize size 0 before offset cs = (o, phrase) :: others) :
    ∃ front back, cs = front ++ back ∧ o = offset + byteLength front ∧
      startsWord (lastOf before front) = true ∧ recognize back = some phrase ∧
        IsQuiet recognize before front back := by
  induction cs generalizing before offset with
  | nil => exact absurd h (by simp [occurrencesFrom])
  | cons c cs ih =>
      rw [occurrencesFrom] at h
      split at h
      next hnone =>
        obtain ⟨front, back, rfl, ho, hstart, hread, hquiet⟩ := ih h
        refine ⟨c :: front, back, rfl, ?_, by simpa using hstart, hread, ?_⟩
        · rw [ho, byteLength_cons, Nat.add_assoc]
        · intro place further hplace hword
          cases place with
          | nil =>
              obtain rfl := hplace.1
              exact (if_pos hword).symm.trans hnone
          | cons d place =>
              obtain ⟨rfl, hparts⟩ := List.cons.inj hplace.1
              exact hquiet place further ⟨hparts, hplace.2⟩ (by simpa using hword)
      next found hfound =>
        obtain ⟨hhead, _⟩ := List.cons.inj h
        obtain ⟨rfl, rfl⟩ := Prod.mk.inj hhead
        split at hfound
        next hstart =>
          refine ⟨[], c :: cs, rfl, rfl, hstart, hfound, ?_⟩
          exact fun _ _ hplace _ => absurd hplace isPlace_nil
        next => exact absurd hfound (by simp)

/-! ## The occurrences in a part of a text -/

/-- In front of `further`, the occurrences in a text that stands at a byte offset are `found`. -/
def Yields (recognize : List Char → Option α) (size : α → Nat) (before : Option Char)
    (offset : Nat) (cs further : List Char) (found : List (Nat × α)) : Prop :=
  occurrencesFrom recognize size 0 before offset (cs ++ further) =
    found ++ occurrencesFrom recognize size 0 (lastOf before cs) (offset + byteLength cs) further

variable {before : Option Char} {offset : Nat} {a b cs further : List Char}

theorem IsQuiet.yields (h : IsQuiet recognize before cs further) :
    Yields recognize size before offset cs further [] :=
  occurrencesFrom_of_quiet size h offset

theorem Yields.phrase {p : α} (hstart : startsWord before = true) (hne : cs ≠ [])
    (hread : recognize (cs ++ further) = some p) (hsize : size p = cs.length) :
    Yields recognize size before offset cs further [(offset, p)] :=
  occurrencesFrom_phrase hstart hne hread hsize offset

theorem Yields.append {found others : List (Nat × α)}
    (ha : Yields recognize size before offset a (b ++ further) found)
    (hb : Yields recognize size (lastOf before a) (offset + byteLength a) b further others) :
    Yields recognize size before offset (a ++ b) further (found ++ others) := by
  rw [Yields] at ha hb ⊢
  rw [List.append_assoc, ha, hb, lastOf_append, byteLength_append, Nat.add_assoc,
    List.append_assoc]

end ClassDiagram.Source
