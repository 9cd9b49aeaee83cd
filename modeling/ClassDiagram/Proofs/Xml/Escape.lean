import ClassDiagram.Proofs.Xml.RoundTrip

/-!
# Escaped texts

A text may be escaped more than once, or look as if it were escaped when it is not. It is read back
all the same: what is written has no character that ends a value or that a reader of the document
changes, every ampersand in it starts a reference, and with its references replaced by what they
stand for it is the text again. So no two texts are written alike.
-/

namespace ClassDiagram.Xml

/-! ## Decoding -/

/-- Replaces the references of a text by the characters that they stand for. `begun` holds the
letters of the reference that has begun in front of the text, if one has. A reference has to be
closed and to stand for a character. -/
def decodeFrom : (begun : Option (List Char)) → List Char → Option (List Char)
  | none, [] => some []
  | some _, [] => none
  | none, c :: rest =>
    if c = '&' then decodeFrom (some []) rest else (decodeFrom none rest).map (c :: ·)
  | some letters, c :: rest =>
    if c = ';' then (referenced? letters).bind fun d => (decodeFrom none rest).map (d :: ·)
    else decodeFrom (some (letters ++ [c])) rest

/-- The text that an escaped text stands for. The five named entities and the decimal references
are known; the decoder does not know which of them are written. -/
def decode? (text : List Char) : Option (List Char) := decodeFrom none text

/-- A reference is replaced where it is closed. -/
theorem decodeFrom_letters {letters : List Char} (hplain : ';' ∉ letters) (begun rest : List Char) :
    decodeFrom (some begun) (letters ++ ';' :: rest) =
      (referenced? (begun ++ letters)).bind fun d => (decodeFrom none rest).map (d :: ·) := by
  induction letters generalizing begun with
  | nil => rw [List.nil_append, List.append_nil, decodeFrom, if_pos rfl]
  | cons c letters ih =>
      obtain ⟨hc, hletters⟩ := not_or.mp (mt List.mem_cons.mpr hplain)
      rw [List.cons_append, decodeFrom, if_neg (Ne.symm hc), ih hletters, List.append_assoc]
      rfl

theorem decodeFrom_escapeChar (c : Char) (rest : List Char) :
    decodeFrom none (escapeChar c ++ rest) = (decodeFrom none rest).map (c :: ·) := by
  rcases escapeChar_cases c with ⟨hself, hplain⟩ | ⟨letters, hescape, hplain, hletters⟩
  · have hc : c ≠ '&' := fun heq => hplain (heq ▸ List.mem_cons_self)
    rw [hself, List.singleton_append, decodeFrom, if_neg hc]
  · rw [hescape, List.append_assoc, List.cons_append, decodeFrom, if_pos rfl,
      List.singleton_append, decodeFrom_letters hplain, List.nil_append, hletters]
    rfl

theorem decode?_escape (text : List Char) : decode? (escape text) = some text := by
  induction text with
  | nil => rfl
  | cons c text ih =>
      rw [decode?] at ih ⊢
      rw [escape_cons, decodeFrom_escapeChar, ih]
      rfl

/-! ## What is written -/

/-- The characters that end a value, open a tag or are changed by a reader of the document. -/
def marks : List Char := ['<', '>', '"', '\'', '\t', '\r', '\n']

/-- The references that are written. -/
def references : List (List Char) :=
  ["&amp;", "&lt;", "&gt;", "&quot;", "&apos;", "&#10;", "&#13;", "&#9;"].map String.toList

/-- A text that is safe between the quotes of a value: it has none of the marks, and every
ampersand starts one of the references. -/
structure IsValueText (text : List Char) : Prop where
  marks : ∀ c ∈ text, c ∉ marks
  references : ∀ before after, text = before ++ '&' :: after →
    ∃ reference ∈ references, reference <+: '&' :: after

namespace IsValueText

theorem nil : IsValueText [] where
  marks := by simp
  references := by simp

/-- A reference in a text is one in every text that the text is a part of. -/
theorem append {a b : List Char} (ha : IsValueText a) (hb : IsValueText b) :
    IsValueText (a ++ b) where
  marks c hc := (List.mem_append.mp hc).elim (ha.marks c) (hb.marks c)
  references before after h := by
    rcases List.append_eq_append_iff.mp h with ⟨between, _, hparts⟩ | ⟨between, hparts, hafter⟩
    · exact hb.references between after hparts
    · cases between with
      | nil => exact hb.references [] after (by simpa using hafter.symm)
      | cons c between =>
          obtain ⟨rfl, rfl⟩ := List.cons.inj hafter
          obtain ⟨reference, hmem, hprefix⟩ := ha.references before between hparts
          exact ⟨reference, hmem, hprefix.trans (List.prefix_append ('&' :: between) b)⟩

end IsValueText

theorem escapeChar_mem_references : ∀ c ∈ escaped, escapeChar c ∈ references := by decide

theorem parts_of_mem_references : ∀ reference ∈ references,
    reference.head? = some '&' ∧ '&' ∉ reference.tail ∧ ∀ c ∈ reference, c ∉ marks := by decide

/-- In a reference there is no ampersand but the first character. -/
theorem isValueText_reference {reference : List Char} (h : reference ∈ references) :
    IsValueText reference := by
  obtain ⟨hhead, htail, hmarks⟩ := parts_of_mem_references reference h
  refine ⟨hmarks, fun before after hparts => ?_⟩
  cases before with
  | nil =>
      rw [List.nil_append] at hparts
      exact ⟨reference, h, hparts ▸ List.prefix_rfl⟩
  | cons c before =>
      rw [hparts] at htail
      exact absurd (List.mem_append_right before List.mem_cons_self) htail

theorem mem_escaped_of_mem_marks : ∀ c ∈ marks, c ∈ escaped := by decide

theorem isValueText_escapeChar (c : Char) : IsValueText (escapeChar c) := by
  by_cases hc : c ∈ escaped
  · exact isValueText_reference (escapeChar_mem_references c hc)
  · rw [escapeChar_of_not_mem hc]
    refine ⟨fun d hd hmark => ?_, fun before after hparts => ?_⟩
    · rw [List.mem_singleton.mp hd] at hmark
      exact hc (mem_escaped_of_mem_marks c hmark)
    · have hmem : '&' ∈ [c] := by
        rw [hparts]
        exact List.mem_append_right before List.mem_cons_self
      exact absurd (List.mem_singleton.mp hmem ▸ List.mem_cons_self) hc

theorem isValueText_escape (text : List Char) : IsValueText (escape text) := by
  induction text with
  | nil => exact .nil
  | cons c text ih =>
      rw [escape_cons]
      exact (isValueText_escapeChar c).append ih

/-! ## Texts that are written as they are -/

theorem one_lt_length_escapeChar : ∀ c ∈ escaped, 1 < (escapeChar c).length := by decide

theorem length_le_flatMap_escapeChar (text : List Char) :
    text.length ≤ (text.flatMap escapeChar).length := by
  induction text with
  | nil => exact Nat.le_refl 0
  | cons c text ih =>
      have hfirst : 1 ≤ (escapeChar c).length := by
        by_cases hc : c ∈ escaped
        · exact Nat.le_of_lt (one_lt_length_escapeChar c hc)
        · rw [escapeChar_of_not_mem hc]
          exact Nat.le_refl 1
      rw [List.flatMap_cons, List.length_append, List.length_cons]
      omega

/-- A character that is written as a reference makes the text longer. -/
theorem flatMap_escapeChar_eq_self_iff {text : List Char} :
    text.flatMap escapeChar = text ↔ ∀ c ∈ text, c ∉ escaped := by
  refine ⟨fun hself => ?_, flatMap_escapeChar_of_forall⟩
  induction text with
  | nil => simp
  | cons c text ih =>
      have hlength := congrArg List.length hself
      rw [List.flatMap_cons, List.length_append, List.length_cons] at hlength
      have hrest := length_le_flatMap_escapeChar text
      have hc : c ∉ escaped := fun hmem => by
        have := one_lt_length_escapeChar c hmem
        omega
      rw [List.flatMap_cons, escapeChar_of_not_mem hc, List.singleton_append] at hself
      exact List.forall_mem_cons.mpr ⟨hc, ih (List.cons.inj hself).2⟩

theorem any_contains_escaped_eq_false_iff {text : List Char} :
    text.any escaped.contains = false ↔ ∀ c ∈ text, c ∉ escaped := by
  simp

/-- Escaping is safe and can be undone, so it tells texts apart. A text that is written as it is
would not be changed by going through its characters, and no other text would be left alone. -/
theorem escape_isReversible :
    Function.Injective escape ∧
      ∀ text, IsValueText (escape text) ∧ decode? (escape text) = some text ∧
        escape text = text.flatMap escapeChar ∧
        (text.any escaped.contains = false ↔ text.flatMap escapeChar = text) := by
  constructor
  · intro a b hsame
    have hdecode := decode?_escape a
    rw [hsame, decode?_escape b] at hdecode
    exact (Option.some.inj hdecode).symm
  · intro text
    refine ⟨isValueText_escape text, decode?_escape text, escape_eq_flatMap text, ?_⟩
    rw [any_contains_escaped_eq_false_iff, flatMap_escapeChar_eq_self_iff]

/-- What is escaped already is escaped again. -/
example : escape "&lt; \"\t".toList = "&amp;lt; &quot;&#9;".toList ∧
    decode? "&amp;lt; &quot;&#9;".toList = some "&lt; \"\t".toList := by decide +kernel

end ClassDiagram.Xml
