import ClassDiagram.Header
import ClassDiagram.Proofs.Source.Apart
import ClassDiagram.Proofs.Source.Mention
import ClassDiagram.Proofs.Text.Bracket

/-!
# Keywords at the top of a header

A header is read from left to right. A part whose keywords all stand between brackets adds no top
keyword, and a keyword outside all brackets is one.
-/

namespace ClassDiagram.Header

open Text Source

theorem isIdentifier_keywords : ∀ w ∈ keywords, IsIdentifier w.toList := by decide

theorem prefixFree_keywords : PrefixFree keywords := by decide

theorem keyword?_eq_some {cs word : List Char} (h : keyword? cs = some word) :
    ∃ w ∈ keywords, word = w.toList ∧ ∃ rest, cs = w.toList ++ rest ∧ endsWord rest = true := by
  simp only [keyword?, Option.bind_eq_bind, Option.bind_eq_some_iff] at h
  obtain ⟨⟨read, rest⟩, hread, h⟩ := h
  obtain ⟨w, hw, rfl, hparts⟩ := Reader.word_eq_some hread
  split at h
  next hends => exact ⟨w, hw, (Option.some.inj h).symm, rest, hparts, hends⟩
  next => exact absurd h (by simp)

theorem keyword?_append {w : String} (hw : w ∈ keywords) {rest : List Char}
    (hrest : ∀ c ∈ rest.head?, isWord c = false) :
    keyword? (w.toList ++ rest) = some w.toList := by
  have hread := Reader.word_append prefixFree_keywords hw rest
  simp only [keyword?, hread, Option.bind_eq_bind, Option.bind_some,
    if_pos (endsWord_iff.mpr hrest)]

theorem opensWith_keyword? : OpensWith keyword? keywords := by
  intro cs word h
  obtain ⟨w, hw, _, rest, hparts, hends⟩ := keyword?_eq_some h
  exact startsWithWord_iff.mpr ⟨w, hw, rest, hparts, hends⟩

/-! ## Parts without top keywords -/

variable {opening closing : List Char}

/-- A part of a header, `depth` brackets deep at its head, whose keywords end in it and stand
between brackets. -/
def IsNested (opening closing : List Char) (before : Option Char) (depth : Int)
    (a b : List Char) : Prop :=
  ∀ front back word, IsPlace a front back → startsWord (lastOf before front) = true →
    keyword? (back ++ b) = some word →
      word.length ≤ back.length ∧ 0 < depth + nesting opening closing front

theorem isNested_of_quiet {before : Option Char} {a b : List Char} (h : IsQuiet keyword? before a b)
    (depth : Int) : IsNested opening closing before depth a b := by
  intro front back word hplace hstart hread
  rw [h front back hplace hstart] at hread
  exact absurd hread (by simp)

theorem IsNested.append {before : Option Char} {depth : Int} {a b c : List Char}
    (ha : IsNested opening closing before depth a (b ++ c))
    (hb : IsNested opening closing (lastOf before a) (depth + nesting opening closing a) b c) :
    IsNested opening closing before depth (a ++ b) c := by
  intro front back word hplace hstart hread
  rcases hplace.of_append with ⟨between, rfl, hpart⟩ | ⟨between, rfl, hpart⟩
  · rw [List.append_assoc] at hread
    obtain ⟨hfit, hdepth⟩ := ha front between word hpart hstart hread
    exact ⟨by rw [List.length_append]; omega, hdepth⟩
  · obtain ⟨hfit, hdepth⟩ := hb between back word hpart (by simpa using hstart) hread
    rw [nesting_append]
    exact ⟨hfit, by omega⟩

/-- Between brackets that match, every keyword is nested. -/
theorem isNested_inner {inner : List Char} (h : IsBalanced '<' '>' inner) (before : Option Char)
    {depth : Int} (hdepth : 0 < depth) (rest : List Char) :
    IsNested ['<'] ['>'] before depth inner ('>' :: rest) := by
  rintro front back word ⟨rfl, _⟩ _ hread
  have hnesting := nesting_nonneg h
  refine ⟨?_, by omega⟩
  -- No keyword goes on over the closing bracket.
  obtain ⟨w, hw, rfl, after, hparts, _⟩ := keyword?_eq_some hread
  rcases List.append_eq_append_iff.mp hparts with ⟨between, hword, hafter⟩ | ⟨between, rfl, _⟩
  · cases between with
    | nil => simp [hword]
    | cons c between =>
        obtain ⟨rfl, _⟩ := List.cons.inj hafter
        have hc := (isIdentifier_keywords w hw).isWord '>' (by simp [hword])
        exact absurd hc (by decide +kernel)
  · rw [List.length_append]
    exact Nat.le_add_right _ _

/-! ## The top keywords of a header -/

/-- The top keywords of a header that start in `rest`, when `front` stands in front of it. -/
def topFrom (opening closing front rest : List Char) : List (Nat × List Char) :=
  (occurrencesFrom keyword? List.length 0 (lastOf none front) (byteLength front) rest).filter
    fun (offset, _) => nesting opening closing (takeBytes offset (front ++ rest)) = 0

theorem topKeywords_eq (opening closing header : List Char) :
    topKeywords opening closing header = topFrom opening closing [] header := rfl

/-- A keyword of a header stands at its offset. -/
theorem exists_parts_of_keyword {header word : List Char} {offset : Nat}
    (h : (offset, word) ∈ occurrences keyword? List.length header) :
    ∃ front rest, header = front ++ (word ++ rest) ∧ offset = byteLength front := by
  obtain ⟨front, back, ⟨rfl, _⟩, rfl, _, hread⟩ := mem_occurrencesFrom h
  obtain ⟨w, _, rfl, rest, rfl, _⟩ := keyword?_eq_some hread
  exact ⟨front, rest, rfl, Nat.zero_add _⟩

/-- A top keyword ends before the next one starts. -/
theorem pairwise_topKeywords (opening closing header : List Char) :
    (topKeywords opening closing header).Pairwise fun a b => a.1 + byteLength a.2 ≤ b.1 := by
  apply List.Pairwise.filter
  refine pairwise_occurrencesFrom id (fun {cs word} hread => ?_) 0 none 0 _
  obtain ⟨w, hw, rfl, rest, rfl, _⟩ := keyword?_eq_some hread
  exact ⟨(isIdentifier_keywords w hw).ne_nil, rfl, List.prefix_append _ _⟩

/-- A part whose keywords are all nested adds none. -/
theorem topFrom_nested {front a b : List Char}
    (h : IsNested opening closing (lastOf none front) (nesting opening closing front) a b) :
    topFrom opening closing front (a ++ b) = topFrom opening closing (front ++ a) b := by
  obtain ⟨found, hfrom, hfound⟩ := occurrencesFrom_append keyword? List.length
    (Nat.zero_le a.length) (fun back front word hplace hstart hread =>
      (h back front word hplace hstart hread).1) (byteLength front)
  have hnone : (found.filter fun (offset, _) =>
      nesting opening closing (takeBytes offset (front ++ (a ++ b))) = 0) = [] := by
    rw [List.filter_eq_nil_iff]
    rintro ⟨offset, word⟩ hmem
    obtain ⟨inner, back, hplace, rfl, hstart, hread⟩ := hfound offset word hmem
    have hnested := (h inner back word hplace hstart hread).2
    have hparts : front ++ (a ++ b) = (front ++ inner) ++ (back ++ b) := by simp [hplace.1]
    rw [hparts, ← byteLength_append]
    dsimp only
    rw [takeBytes_append, nesting_append, decide_eq_true_eq]
    omega
  rw [topFrom, hfrom, List.filter_append, hnone, List.nil_append, topFrom, lastOf_append,
    byteLength_append, List.append_assoc]

/-- A keyword outside all brackets is a top keyword. -/
theorem topFrom_keyword {front : List Char} (hfront : nesting opening closing front = 0)
    (hstart : startsWord (lastOf none front) = true) {w : String} (hw : w ∈ keywords)
    {rest : List Char} (hrest : ∀ c ∈ rest.head?, isWord c = false) :
    topFrom opening closing front (w.toList ++ rest) =
      (byteLength front, w.toList) :: topFrom opening closing (front ++ w.toList) rest := by
  have hne := (isIdentifier_keywords w hw).ne_nil
  rw [topFrom, occurrencesFrom_phrase hstart hne (keyword?_append hw hrest) rfl,
    List.filter_cons_of_pos (by simp [hfront]), topFrom, lastOf_append, byteLength_append,
    List.append_assoc]

/-! ## Clauses -/

/-- A clause ends at the byte offset `stop`: where the next keyword stands, or at the end. -/
def EndsAt (rest : List Char) (stop : Nat) (further : List (Nat × List Char)) : Prop :=
  further = [] ∧ stop = byteLength rest ∨ ∃ word later, further = (stop, word) :: later

theorem clausesAt_cons (shift : Nat) {rest : List Char} {start stop : Nat} (word : List Char)
    {further : List (Nat × List Char)} (hstop : EndsAt rest stop further) :
    clausesAt shift rest ((start, word) :: further) =
      if word = "extends".toList ∨ word = "implements".toList then
        ⟨word, shift + start, TypeList.split (slice rest ⟨start + byteLength word, stop⟩)⟩ ::
          clausesAt shift rest further
      else clausesAt shift rest further := by
  rcases hstop with ⟨rfl, rfl⟩ | ⟨next, later, rfl⟩ <;>
    simp only [clausesAt, Bool.or_eq_true, decide_eq_true_eq]

/-- The list of a clause ends behind its keyword, and in front of all further keywords. -/
theorem exists_endsAt {rest before word after : List Char} {further : List (Nat × List Char)}
    (hrest : rest = before ++ (word ++ after))
    (hfurther : ∀ entry ∈ further, entry ∈ occurrences keyword? List.length rest)
    (hbehind : ∀ entry ∈ further, byteLength before + byteLength word ≤ entry.1)
    (hapart : further.Pairwise fun a b => a.1 + byteLength a.2 ≤ b.1) :
    ∃ list behind, after = list ++ behind ∧
      EndsAt rest (byteLength (before ++ word ++ list)) further ∧
      ∀ entry ∈ further, byteLength (before ++ word ++ list) ≤ entry.1 := by
  cases further with
  | nil => exact ⟨after, [], by simp, .inl ⟨rfl, by simp [hrest]⟩, by simp⟩
  | cons next others =>
      obtain ⟨offset, keyword⟩ := next
      obtain ⟨front, behind, hparts, rfl⟩ := exists_parts_of_keyword (hfurther _ List.mem_cons_self)
      have hplaces : (before ++ word) ++ after = front ++ (keyword ++ behind) := by
        rw [List.append_assoc, ← hrest, hparts]
      obtain ⟨list, rfl, rfl⟩ := exists_between_of_byteLength_le hplaces
        (by rw [byteLength_append]; exact hbehind _ List.mem_cons_self)
      refine ⟨list, keyword ++ behind, rfl, .inr ⟨keyword, others, rfl⟩, ?_⟩
      intro entry hentry
      rcases List.mem_cons.mp hentry with rfl | hlater
      · exact Nat.le_refl _
      · have hnext := (List.pairwise_cons.mp hapart).1 entry hlater
        exact Nat.le_trans (Nat.le_add_right _ _) hnext

end ClassDiagram.Header
