import ClassDiagram.Proofs.Text.Blank
import ClassDiagram.Proofs.Text.Bracket
import Mathlib.Data.List.SplitBy
import Mathlib.Logic.Equiv.Basic

/-!
# Renamed texts

A text is made of words, each as long as it can be, and of single characters between them. A
renaming exchanges the words and leaves all else as it is, and so it leaves what only depends on the
characters between words: where white space is trimmed, and how brackets match.
-/

namespace ClassDiagram.Text

/-! ## Words and what stands between them -/

/-- One or more characters that belong to a word. -/
structure IsRun (w : List Char) : Prop where
  ne_nil : w ≠ []
  isWord : ∀ c ∈ w, isWord c = true

instance (w : List Char) : Decidable (IsRun w) :=
  decidable_of_iff (w ≠ [] ∧ ∀ c ∈ w, isWord c = true)
    ⟨fun ⟨hne, hw⟩ => ⟨hne, hw⟩, fun h => ⟨h.ne_nil, h.isWord⟩⟩

theorem IsRun.exists_head {w : List Char} (hw : IsRun w) :
    ∃ c, w.head? = some c ∧ Text.isWord c = true := by
  obtain ⟨c, cs, rfl⟩ := List.exists_cons_of_ne_nil hw.ne_nil
  exact ⟨c, rfl, hw.isWord c List.mem_cons_self⟩

theorem IsRun.exists_last {w : List Char} (hw : IsRun w) :
    ∃ c, w.getLast? = some c ∧ Text.isWord c = true :=
  ⟨_, List.getLast?_eq_some_getLast hw.ne_nil, hw.isWord _ (List.getLast_mem hw.ne_nil)⟩

/-- The words of a text and the single characters between them, in order. -/
def runs (cs : List Char) : List (List Char) := cs.splitBy fun c d => isWord c && isWord d

/-- No word of the text `a ++ b` goes on from `a` into `b`. -/
def IsSeam (a b : List Char) : Prop :=
  (∀ c ∈ a.getLast?, isWord c = false) ∨ ∀ c ∈ b.head?, isWord c = false

theorem isSeam_nil (b : List Char) : IsSeam [] b := .inl (by simp)

theorem isSeam_mark (a : List Char) {c : Char} (hc : isWord c = false) (cs : List Char) :
    IsSeam a (c :: cs) := .inr (forall_mem_head_cons hc cs)

theorem isSeam_concat_mark (a : List Char) {c : Char} (hc : isWord c = false) (b : List Char) :
    IsSeam (a ++ [c]) b := .inl (by simpa using hc)

theorem IsSeam.of_append_right {a b c : List Char} (h : IsSeam a (b ++ c)) : IsSeam a b := by
  cases b with
  | nil => exact .inr (by simp)
  | cons d b => exact h

theorem IsSeam.of_append_left {a b c : List Char} (h : IsSeam (a ++ b) c) : IsSeam b c := by
  by_cases hne : b = []
  · exact hne ▸ isSeam_nil c
  · rwa [IsSeam, List.getLast?_append_of_ne_nil _ hne] at h

theorem runs_append {a b : List Char} (h : IsSeam a b) : runs (a ++ b) = runs a ++ runs b := by
  apply List.splitBy_append
  intro c hc d hd
  rcases h with h | h
  · rw [h c hc, Bool.false_and]
  · rw [h d hd, Bool.and_false]

theorem runs_mark {c : Char} (hc : isWord c = false) (cs : List Char) :
    runs (c :: cs) = [c] :: runs cs := by
  have hseam : IsSeam [c] cs := isSeam_concat_mark [] hc cs
  rw [← List.singleton_append, runs_append hseam]
  rfl

theorem runs_word {w : List Char} (hw : IsRun w) : runs w = [w] := by
  apply List.splitBy_of_isChain hw.ne_nil
  apply List.Pairwise.isChain
  apply List.pairwise_of_forall_mem_list
  intro c hc d hd
  rw [hw.isWord c hc, hw.isWord d hd, Bool.and_self]

theorem runs_word_append {w cs : List Char} (hw : IsRun w)
    (hcs : ∀ c ∈ cs.head?, isWord c = false) : runs (w ++ cs) = w :: runs cs := by
  rw [runs_append (.inr hcs), runs_word hw, List.singleton_append]

/-- What holds of the empty text, and of longer texts whether they start with a word or not, holds
of every text. -/
@[elab_as_elim]
theorem runsInduction {motive : List Char → Prop} (nil : motive [])
    (mark : ∀ c cs, isWord c = false → motive cs → motive (c :: cs))
    (word : ∀ w cs, IsRun w → (∀ c ∈ cs.head?, isWord c = false) → motive cs → motive (w ++ cs))
    (cs : List Char) : motive cs := by
  induction hn : cs.length using Nat.strong_induction_on generalizing cs with
  | _ n ih =>
      cases cs with
      | nil => exact nil
      | cons c cs =>
          cases hc : isWord c with
          | false => exact mark c cs hc (ih cs.length (by simp [← hn]) cs rfl)
          | true =>
              have hparts := List.takeWhile_append_dropWhile (p := isWord) (l := c :: cs)
              have hrun : IsRun ((c :: cs).takeWhile isWord) := by
                refine ⟨by simp [hc], fun d hd => ?_⟩
                exact List.all_eq_true.mp List.all_takeWhile d hd
              have hhead : ∀ d ∈ ((c :: cs).dropWhile isWord).head?, isWord d = false := by
                intro d hd
                have hnot := List.head?_dropWhile_not isWord (c :: cs)
                rw [hd] at hnot
                simpa using hnot
              have hshorter : ((c :: cs).dropWhile isWord).length < n := by
                have hlength := congrArg List.length hparts
                have hpos := List.length_pos_iff.mpr hrun.ne_nil
                rw [List.length_append] at hlength
                omega
              rw [← hparts]
              exact word _ _ hrun hhead (ih _ hshorter _ rfl)

/-- A question with the same answer for all characters of words. -/
def IsBlind (q : Char → Bool) : Prop := ∀ c d, isWord c = true → isWord d = true → q c = q d

theorem isBlind_isWord : IsBlind isWord := fun _ _ hc hd => hc.trans hd.symm

theorem isBlind_isBlank : IsBlind isBlank := fun _ _ hc hd => by
  rw [isBlank_of_isWord hc, isBlank_of_isWord hd]

theorem isBlind_mark {m : Char} (hm : isWord m = false) : IsBlind (· = m) := by
  have hne : ∀ c, isWord c = true → (decide (c = m)) = false := by
    intro c hc
    apply decide_eq_false
    rintro rfl
    rw [hm] at hc
    exact Bool.false_ne_true hc
  intro c d hc hd
  exact (hne c hc).trans (hne d hd).symm

/-! ## Renamings -/

/-- An exchange of words for words, different ones for different ones. -/
structure Renaming where
  word : List Char → List Char
  isRun : ∀ {w}, IsRun w → IsRun (word w)
  injective : ∀ {v w}, IsRun v → IsRun w → word v = word w → v = w

/-- The renaming that exchanges two words with each other. -/
def Renaming.swap (v w : List Char) (hv : IsRun v) (hw : IsRun w) : Renaming where
  word := Equiv.swap v w
  isRun {x} hx := by
    rw [Equiv.swap_apply_def]
    split
    · exact hw
    · split
      · exact hv
      · exact hx
  injective _ _ h := (Equiv.swap v w).injective h

namespace Renaming

variable (σ : Renaming)

/-- The text in which each word is renamed. -/
def text (cs : List Char) : List Char :=
  (runs cs).flatMap fun run => if IsRun run then σ.word run else run

@[simp]
theorem text_nil : σ.text [] = [] := rfl

theorem text_append {a b : List Char} (h : IsSeam a b) :
    σ.text (a ++ b) = σ.text a ++ σ.text b := by
  rw [text, runs_append h, List.flatMap_append]
  rfl

theorem text_mark {c : Char} (hc : isWord c = false) (cs : List Char) :
    σ.text (c :: cs) = c :: σ.text cs := by
  have hrun : ¬IsRun [c] := fun h => by
    rw [h.isWord c List.mem_cons_self] at hc
    exact absurd hc (by decide)
  rw [text, runs_mark hc, List.flatMap_cons, if_neg hrun]
  rfl

theorem text_word {w : List Char} (hw : IsRun w) : σ.text w = σ.word w := by
  rw [text, runs_word hw, List.flatMap_cons, if_pos hw, List.flatMap_nil, List.append_nil]

theorem text_word_append {w cs : List Char} (hw : IsRun w)
    (hcs : ∀ c ∈ cs.head?, isWord c = false) : σ.text (w ++ cs) = σ.word w ++ σ.text cs := by
  rw [σ.text_append (.inr hcs), σ.text_word hw]

theorem text_concat_mark (a : List Char) {c : Char} (hc : isWord c = false) :
    σ.text (a ++ [c]) = σ.text a ++ [c] := by
  rw [σ.text_append (isSeam_mark a hc []), σ.text_mark hc]
  rfl

theorem text_eq_nil_iff {cs : List Char} : σ.text cs = [] ↔ cs = [] := by
  induction cs using runsInduction with
  | nil => simp
  | mark c cs hc _ => simp [σ.text_mark hc]
  | word w cs hw hcs _ =>
      rw [σ.text_word_append hw hcs]
      simp [hw.ne_nil, (σ.isRun hw).ne_nil]

/-! ## What a renaming leaves -/

theorem text_of_forall_mark {cs : List Char} (h : ∀ c ∈ cs, isWord c = false) : σ.text cs = cs := by
  induction cs with
  | nil => rfl
  | cons c cs ih =>
      obtain ⟨hc, hcs⟩ := List.forall_mem_cons.mp h
      rw [σ.text_mark hc, ih hcs]

section

variable {q : Char → Bool} (hq : IsBlind q)

include hq

theorem map_head?_text (cs : List Char) : (σ.text cs).head?.map q = cs.head?.map q := by
  induction cs using runsInduction with
  | nil => rfl
  | mark c cs hc _ => rw [σ.text_mark hc]; rfl
  | word w cs hw hcs _ =>
      obtain ⟨c, hc, hcword⟩ := hw.exists_head
      obtain ⟨d, hd, hdword⟩ := (σ.isRun hw).exists_head
      rw [σ.text_word_append hw hcs, List.head?_append, List.head?_append, hc, hd]
      exact congrArg some (hq d c hdword hcword)

theorem map_getLast?_text (cs : List Char) : (σ.text cs).getLast?.map q = cs.getLast?.map q := by
  -- Behind the first run nothing matters, unless the text ends with it.
  have hbehind : ∀ {a b cs : List Char}, a.getLast?.map q = b.getLast?.map q →
      (σ.text cs).getLast?.map q = cs.getLast?.map q →
      (a ++ σ.text cs).getLast?.map q = (b ++ cs).getLast?.map q := by
    intro a b cs hfirst hrest
    by_cases hne : cs = []
    · rwa [hne, σ.text_nil, List.append_nil, List.append_nil]
    · rwa [List.getLast?_append_of_ne_nil _ hne,
        List.getLast?_append_of_ne_nil _ (mt σ.text_eq_nil_iff.mp hne)]
  induction cs using runsInduction with
  | nil => rfl
  | mark c cs hc ih =>
      rw [σ.text_mark hc]
      exact @hbehind [c] [c] cs rfl ih
  | word w cs hw hcs ih =>
      obtain ⟨c, hc, hcword⟩ := hw.exists_last
      obtain ⟨d, hd, hdword⟩ := (σ.isRun hw).exists_last
      rw [σ.text_word_append hw hcs]
      refine hbehind ?_ ih
      rw [hc, hd]
      exact congrArg some (hq d c hdword hcword)

omit hq in
theorem forall_mem_iff_of_map_eq {a b : Option Char} (h : a.map q = b.map q) :
    (∀ c ∈ a, q c = false) ↔ ∀ c ∈ b, q c = false := by
  cases a <;> cases b <;> simp_all

theorem forall_head_text_iff {cs : List Char} :
    (∀ c ∈ (σ.text cs).head?, q c = false) ↔ ∀ c ∈ cs.head?, q c = false :=
  forall_mem_iff_of_map_eq (σ.map_head?_text hq cs)

theorem forall_last_text_iff {cs : List Char} :
    (∀ c ∈ (σ.text cs).getLast?, q c = false) ↔ ∀ c ∈ cs.getLast?, q c = false :=
  forall_mem_iff_of_map_eq (σ.map_getLast?_text hq cs)

end

/-- Renamed texts follow each other with a seam where the texts do. -/
theorem isSeam_text {a b : List Char} (h : IsSeam a b) : IsSeam (σ.text a) (σ.text b) :=
  h.imp (σ.forall_last_text_iff isBlind_isWord).mpr (σ.forall_head_text_iff isBlind_isWord).mpr

/-! ### White space -/

theorem text_trimStart (cs : List Char) : σ.text (trimStart cs) = trimStart (σ.text cs) := by
  induction cs using runsInduction with
  | nil => rfl
  | mark c cs hc ih =>
      rw [σ.text_mark hc, trimStart, trimStart, List.dropWhile_cons, List.dropWhile_cons]
      split
      next => exact ih
      next => exact σ.text_mark hc cs
  | word w cs hw hcs _ =>
      have hstays : ∀ {v rest : List Char}, IsRun v → trimStart (v ++ rest) = v ++ rest := by
        intro v rest hv
        obtain ⟨c, v, rfl⟩ := List.exists_cons_of_ne_nil hv.ne_nil
        exact dropWhile_of_head (forall_mem_head_cons
          (isBlank_of_isWord (hv.isWord c List.mem_cons_self)) _)
      rw [hstays hw, σ.text_word_append hw hcs, hstays (σ.isRun hw)]

theorem text_trimEnd (cs : List Char) : σ.text (trimEnd cs) = trimEnd (σ.text cs) := by
  have htrim : ∀ {core after : List Char}, (∀ c ∈ core.getLast?, isBlank c = false) →
      (∀ c ∈ after, isBlank c = true) → trimEnd (core ++ after) = core := by
    intro core after hcore hafter
    rw [trimEnd, List.reverse_append, dropWhile_append_of_head
      (fun c hc => hafter c (List.mem_reverse.mp hc)) (by rwa [List.head?_reverse]),
      List.reverse_reverse]
  obtain ⟨hparts, hblank⟩ := takeWhile_append_dropWhile_isBlank cs.reverse
  have hlast : ∀ c ∈ (trimEnd cs).getLast?, isBlank c = false := by
    intro c hc
    rw [trimEnd, List.getLast?_reverse] at hc
    have hnot := List.head?_dropWhile_not isBlank cs.reverse
    rw [hc] at hnot
    simpa using hnot
  have hafter : ∀ c ∈ (cs.reverse.takeWhile isBlank).reverse, isBlank c = true :=
    fun c hc => hblank c (List.mem_reverse.mp hc)
  have hcs : cs = trimEnd cs ++ (cs.reverse.takeWhile isBlank).reverse := by
    rw [trimEnd, ← List.reverse_append, ← hparts, List.reverse_reverse]
  generalize (cs.reverse.takeWhile isBlank).reverse = after at hafter hcs
  have hmarks : ∀ c ∈ after, isWord c = false := fun c hc => isWord_of_isBlank (hafter c hc)
  have hseam : IsSeam (trimEnd cs) after :=
    .inr fun c hc => hmarks c (List.mem_of_mem_head? hc)
  have htext : σ.text cs = σ.text (trimEnd cs) ++ after := by
    conv_lhs => rw [hcs, σ.text_append hseam, σ.text_of_forall_mark hmarks]
  rw [htext, htrim ((σ.forall_last_text_iff isBlind_isBlank).mpr hlast) hafter]

theorem text_trim (cs : List Char) : σ.text (trim cs) = trim (σ.text cs) := by
  rw [trim, σ.text_trimEnd, σ.text_trimStart, trim]

/-! ### Brackets -/

theorem nesting_of_forall {opening closing cs : List Char}
    (h : ∀ c ∈ cs, c ∉ opening ++ closing) : nesting opening closing cs = 0 := by
  induction cs with
  | nil => rfl
  | cons c cs ih =>
      obtain ⟨hc, hcs⟩ := List.forall_mem_cons.mp h
      obtain ⟨hopening, hclosing⟩ := not_or.mp (mt List.mem_append.mpr hc)
      rw [← List.singleton_append, nesting_append, ih hcs]
      simp [nesting, hopening, hclosing]

theorem nesting_text {opening closing : List Char}
    (hmarks : ∀ c ∈ opening ++ closing, isWord c = false) (cs : List Char) :
    nesting opening closing (σ.text cs) = nesting opening closing cs := by
  have hword : ∀ {w}, IsRun w → nesting opening closing w = 0 := fun hw =>
    nesting_of_forall fun c hc hmark => by
      have hword := hw.isWord c hc
      rw [hmarks c hmark] at hword
      exact absurd hword Bool.false_ne_true
  induction cs using runsInduction with
  | nil => rfl
  | mark c cs hc ih =>
      rw [σ.text_mark hc, ← List.singleton_append, nesting_append, ih, ← nesting_append,
        List.singleton_append]
  | word w cs hw hcs ih =>
      rw [σ.text_word_append hw hcs, nesting_append, nesting_append, hword hw, hword (σ.isRun hw),
        ih]

/-- The answers of two searches, in a text at the byte offset `offset` and in the renamed text at
`further`: the offsets of the same mark, or none. -/
inductive SamePlace (mark : Char) (cs : List Char) (offset further : Nat) :
    Option Nat → Option Nat → Prop
  | none : SamePlace mark cs offset further none none
  | some (a b : List Char) (hparts : cs = a ++ mark :: b) : SamePlace mark cs offset further
      (some (offset + byteLength a)) (some (further + byteLength (σ.text a)))

theorem SamePlace.behind {mark : Char} {front cs : List Char} {offset further : Nat}
    {n m : Option Nat} (h : σ.SamePlace mark cs (offset + byteLength front)
      (further + byteLength (σ.text front)) n m) (hseam : IsSeam front cs) :
    σ.SamePlace mark (front ++ cs) offset further n m := by
  cases h with
  | none => exact .none
  | some a b hparts =>
      subst hparts
      rw [Nat.add_assoc, Nat.add_assoc, ← byteLength_append, ← byteLength_append,
        ← σ.text_append hseam.of_append_right]
      exact .some (front ++ a) b (List.append_assoc _ _ _).symm

/-- The search for a closing bracket goes the same way in a renamed text. -/
theorem closingFrom_text {opening closing : Char} (hopening : isWord opening = false)
    (hclosing : isWord closing = false) (depth offset further : Nat) (cs : List Char) :
    σ.SamePlace closing cs offset further
      (closingFrom Char.utf8Size opening closing depth offset cs)
      (closingFrom Char.utf8Size opening closing depth further (σ.text cs)) := by
  have hpass : ∀ {w}, IsRun w → ∀ c ∈ w, c ≠ opening ∧ c ≠ closing := by
    intro w hw c hc
    have hword := hw.isWord c hc
    constructor <;> rintro rfl <;> simp_all
  induction cs using runsInduction generalizing depth offset further with
  | nil => exact .none
  | mark c cs hc ih =>
      have hon : ∀ next, σ.SamePlace closing (c :: cs) offset further
          (closingFrom Char.utf8Size opening closing next (offset + c.utf8Size) cs)
          (closingFrom Char.utf8Size opening closing next (further + c.utf8Size) (σ.text cs)) := by
        intro next
        have hplace := ih next (offset + byteLength [c]) (further + byteLength (σ.text [c]))
        have hbehind := hplace.behind σ (isSeam_concat_mark [] hc cs)
        rwa [σ.text_mark hc] at hbehind
      rw [σ.text_mark hc, closingFrom, closingFrom]
      split
      next => exact hon _
      next =>
        split
        next hclose =>
          split
          next => exact .some [] cs (by rw [hclose]; rfl)
          next => exact hon _
        next => exact hon _
  | word w cs hw hcs ih =>
      rw [σ.text_word_append hw hcs, closingFrom_append_of_forall_ne (hpass hw),
        closingFrom_append_of_forall_ne (hpass (σ.isRun hw)), totalSize_utf8Size,
        totalSize_utf8Size]
      refine SamePlace.behind σ ?_ (.inr hcs)
      rw [σ.text_word hw]
      exact ih depth _ _

end Renaming

end ClassDiagram.Text
