import ClassDiagram.Proofs.Header.Keywords
import ClassDiagram.Proofs.Text.Paired

/-!
# The base list of a C# header

The base list of a header starts at its first colon outside all brackets and ends where the
constraints start, which is at the first `where` outside all brackets.
-/

namespace ClassDiagram.Header

open Text Source

/-! ## The first colon -/

/-- A text that the search for the colon passes over. -/
def Colonless (cs : List Char) : Prop :=
  ∀ offset rest, colonFrom 0 offset (cs ++ rest) = colonFrom 0 (offset + byteLength cs) rest

theorem colonless_nil : Colonless [] := fun _ _ => rfl

theorem Colonless.append {a b : List Char} (ha : Colonless a) (hb : Colonless b) :
    Colonless (a ++ b) := by
  intro offset rest
  rw [List.append_assoc, ha, hb, byteLength_append, Nat.add_assoc]

theorem colonless_of_forall {cs : List Char} (h : ∀ c ∈ cs, c ∉ ['<', '>', '(', ')', ':']) :
    Colonless cs := by
  intro offset rest
  induction cs generalizing offset with
  | nil => rfl
  | cons c cs ih =>
      have hmarks := h c List.mem_cons_self
      simp only [List.mem_cons, List.not_mem_nil, or_false, not_or] at hmarks
      obtain ⟨hless, hgreater, hopen, hclose, hcolon⟩ := hmarks
      rw [List.cons_append, colonFrom, if_neg (by simp [hless, hopen]),
        if_neg (by simp [hgreater, hclose]), if_neg (by simp [hcolon]),
        ih (fun d hd => h d (List.mem_cons_of_mem _ hd)), byteLength_cons, Nat.add_assoc]

/-- Between brackets the search goes on, as deep as the text leaves it. -/
theorem colonFrom_inside {cs : List Char} {depth after : Nat}
    (h : openAfter '<' '>' depth (cs.map angled) = some after) (offset : Nat)
    (rest : List Char) : colonFrom (depth + 1) offset (cs ++ rest) =
      colonFrom (after + 1) (offset + byteLength cs) rest := by
  induction cs generalizing depth offset with
  | nil =>
      obtain rfl := Option.some.inj h
      rfl
  | cons c cs ih =>
      rw [List.map_cons, openAfter] at h
      simp only [angled_eq_less_iff, angled_eq_greater_iff] at h
      rw [List.cons_append, colonFrom, byteLength_cons, ← Nat.add_assoc]
      split at h
      next hopen =>
        rw [if_pos (by simpa using hopen), ← ih h]
        rfl
      next hopen =>
        rw [if_neg (by simpa using hopen)]
        split at h
        next hclose =>
          split at h
          next => exact absurd h (by simp)
          next hdepth =>
            rw [if_pos (by simpa using hclose), ← ih h]
            congr 1
            omega
        next hclose =>
          rw [if_neg (by simpa using hclose), if_neg (by simp; omega), ih h]

theorem colonless_enclose {opening closing : Char} (hpair : (opening, closing) ∈ pairs)
    {inner : List Char} (h : IsPaired inner) : Colonless (opening :: (inner ++ [closing])) := by
  intro offset rest
  have hinner : colonFrom (0 + 1) (offset + opening.utf8Size) (inner ++ closing :: rest) =
      colonFrom (0 + 1) (offset + opening.utf8Size + byteLength inner) (closing :: rest) :=
    colonFrom_inside h.together _ _
  have hsize : offset + opening.utf8Size + byteLength inner + closing.utf8Size =
      offset + byteLength (opening :: (inner ++ [closing])) := by
    simp [Nat.add_assoc]
  rw [List.cons_append, List.append_assoc, List.singleton_append, ← hsize]
  rcases mem_pairs hpair with ⟨rfl, rfl⟩ | ⟨rfl, rfl⟩ <;>
    rw [colonFrom, if_pos (by simp), hinner, colonFrom, if_neg (by simp), if_pos (by simp)] <;>
    rfl

theorem Colonless.colonFrom_colon {cs : List Char} (h : Colonless cs) (rest : List Char) :
    colonFrom 0 0 (cs ++ ':' :: rest) = some (byteLength cs, ':' :: rest) := by
  rw [h, colonFrom, if_neg (by simp), if_neg (by simp), if_pos (by simp), Nat.zero_add]

theorem Colonless.colonFrom_eq_none {cs : List Char} (h : Colonless cs) :
    colonFrom 0 0 cs = none := by
  have hend := h 0 []
  rw [List.append_nil] at hend
  rw [hend]
  rfl

theorem colonFrom_eq_some {depth : Int} {offset colon : Nat} {cs list : List Char}
    (h : colonFrom depth offset cs = some (colon, list)) :
    ∃ before after, cs = before ++ ':' :: after ∧ list = ':' :: after ∧
      colon = offset + byteLength before := by
  induction cs generalizing depth offset with
  | nil => exact absurd h (by simp [colonFrom])
  | cons c cs ih =>
      have hon : ∀ further, colonFrom further (offset + c.utf8Size) cs = some (colon, list) →
          ∃ before after, c :: cs = before ++ ':' :: after ∧ list = ':' :: after ∧
            colon = offset + byteLength before := by
        intro further hfurther
        obtain ⟨before, after, rfl, hlist, hcolon⟩ := ih hfurther
        exact ⟨c :: before, after, rfl, hlist, by rw [hcolon, byteLength_cons, Nat.add_assoc]⟩
      rw [colonFrom] at h
      split at h
      next => exact hon _ h
      next =>
        split at h
        next => exact hon _ h
        next =>
          split at h
          next hcolon =>
            obtain ⟨rfl, rfl⟩ := Prod.mk.inj (Option.some.inj h)
            obtain ⟨rfl, _⟩ : c = ':' ∧ depth = 0 := by simpa using hcolon
            exact ⟨[], cs, rfl, rfl, rfl⟩
          next => exact hon _ h

/-! ## The start of the constraints -/

variable {front rest before back word : List Char}

/-- A keyword that starts in front of a place where a word may start ends in front of it. -/
theorem exists_between_of_keyword? (hapart : rest ≠ [] → startsWord (lastOf none front) = true)
    (hplace : IsPlace front before back) (h : keyword? (back ++ rest) = some word) :
    ∃ between, back = word ++ between ∧ endsWord between = true := by
  obtain ⟨rfl, hne⟩ := hplace
  obtain ⟨w, hw, rfl, after, hparts, hends⟩ := keyword?_eq_some h
  rcases List.append_eq_append_iff.mp hparts with ⟨between, hword, hrest⟩ | ⟨between, hback, hafter⟩
  · cases between with
    | nil =>
        rw [List.append_nil] at hword
        exact ⟨[], by rw [hword, List.append_nil], rfl⟩
    | cons c between =>
        -- Otherwise the last character in front of the place belongs to the keyword.
        have hplace := hapart (by simp [hrest])
        rw [lastOf_append, lastOf_congr hne _ none] at hplace
        obtain ⟨d, hd⟩ := Option.ne_none_iff_exists'.mp (mt List.getLast?_eq_none_iff.mp hne)
        have hinside : d ∈ w.toList := by
          rw [hword]
          exact List.mem_append_left _ (List.mem_of_getLast? hd)
        have hcontinued := (isIdentifier_keywords w hw).isWord d hinside
        simp [lastOf, hd, startsWord, hcontinued] at hplace
  · refine ⟨between, hback, endsWord_iff.mpr fun c hc => endsWord_iff.mp hends c ?_⟩
    rw [hafter]
    exact List.mem_head?_append_of_mem_head? hc

/-- The constraints of a header start between two of its characters. -/
theorem exists_parts_of_constraintsStart (header : List Char) :
    ∃ front constraints, header = front ++ constraints ∧
      constraintsStart header = byteLength front := by
  unfold constraintsStart
  split
  next offset word hfind =>
    obtain ⟨front, rest, hparts, hoffset⟩ :=
      exists_parts_of_keyword (List.mem_filter.mp (List.mem_of_find?_eq_some hfind)).1
    exact ⟨front, word ++ rest, hparts, hoffset⟩
  next => exact ⟨header, [], (List.append_nil header).symm, rfl⟩

/-- Where `where` is not mentioned, it is read at no place. -/
theorem keyword?_ne_where (hfree : mentions ["where"] none front = false)
    (hapart : rest ≠ [] → startsWord (lastOf none front) = true)
    (hplace : IsPlace front before back) (hstart : startsWord (lastOf none before) = true)
    (h : keyword? (back ++ rest) = some word) : word ≠ "where".toList := by
  rintro rfl
  obtain ⟨between, hback, hends⟩ := exists_between_of_keyword? hapart hplace h
  have hstands : startsWithWord ["where"] back = true :=
    startsWithWord_iff.mpr ⟨"where", List.mem_singleton_self _, between, hback, hends⟩
  rw [mentions_eq_false hfree hplace hstart] at hstands
  exact absurd hstands Bool.false_ne_true

/-- Without `where`, no constraints start in a header. -/
theorem constraintsStart_of_free (hfree : mentions ["where"] none front = false) :
    constraintsStart front = byteLength front := by
  have hnone : (topKeywords ['<', '('] ['>', ')'] front).find? (·.2 = "where".toList) = none := by
    rw [List.find?_eq_none]
    rintro ⟨offset, word⟩ hmem
    obtain ⟨before, back, hplace, _, hstart, hread⟩ :=
      mem_occurrencesFrom (List.mem_filter.mp hmem).1
    rw [← List.append_nil back] at hread
    have hne := keyword?_ne_where hfree (fun hne => absurd rfl hne) hplace hstart hread
    simpa using hne
  rw [constraintsStart, hnone]

/-- The constraints of a header start at its first `where`. -/
theorem constraintsStart_append (hfree : mentions ["where"] none front = false)
    (hpaired : IsPaired front) (hapart : startsWord (lastOf none front) = true)
    (hrest : ∀ c ∈ rest.head?, isWord c = false) :
    constraintsStart (front ++ ("where".toList ++ rest)) = byteLength front := by
  obtain ⟨found, hfrom, hfound⟩ := occurrencesFrom_append keyword? List.length
    (Nat.zero_le front.length) (fun before back word hplace _ hread => by
      obtain ⟨between, rfl, _⟩ := exists_between_of_keyword? (fun _ => hapart) hplace hread
      rw [List.length_append]
      exact Nat.le_add_right _ _) 0
  have hwhere := occurrencesFrom_phrase hapart (isIdentifier_keywords "where" (by decide)).ne_nil
    (keyword?_append (by decide) hrest) rfl (0 + byteLength front)
  have hnone (atTop : Nat × List Char → Bool) :
      (found.filter atTop).find? (·.2 = "where".toList) = none := by
    rw [List.find?_eq_none]
    rintro ⟨offset, word⟩ hmem
    obtain ⟨before, back, hplace, _, hstart, hread⟩ :=
      hfound offset word (List.mem_filter.mp hmem).1
    simpa using keyword?_ne_where hfree (fun _ => hapart) hplace hstart hread
  have htop : nesting ['<', '('] ['>', ')']
      (takeBytes (0 + byteLength front) (front ++ ("where".toList ++ rest))) = 0 := by
    rw [Nat.zero_add, takeBytes_append, hpaired.nesting]
  rw [constraintsStart, topKeywords, occurrences, hfrom, hwhere, List.filter_append,
    List.filter_cons_of_pos (by simpa using htop), List.find?_append, hnone, Option.none_or,
    List.find?_cons_of_pos (by simp)]
  exact Nat.zero_add _

end ClassDiagram.Header
