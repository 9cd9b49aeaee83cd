import ClassDiagram.Json.Printer
import ClassDiagram.Json.Reader
import ClassDiagram.Proofs.Text.Blank
import Mathlib.Data.List.Basic

/-!
# Strings and numbers in JSON

A text of any characters is read back from its quoted form, and a natural number from its digits,
each together with what follows it.
-/

namespace ClassDiagram.Json

open Text

/-! ## Strings -/

theorem hexValue?_hexDigit : ∀ d < 16, hexValue? (hexDigit d) = some d := by decide

/-- A character stands for itself, has a short escape, or is written as its code. -/
theorem escapeChar_cases (c : Char) :
    (escapeChar c = [c] ∧ c ≠ '"' ∧ c ≠ '\\' ∧ 32 ≤ c.toNat) ∨
      (∃ letter, escapeChar c = ['\\', letter] ∧ letter ≠ 'u' ∧ shortEscape? letter = some c) ∨
      escapeChar c = ['\\', 'u', '0', '0', hexDigit (c.toNat / 16), hexDigit (c.toNat % 16)] ∧
        c.toNat < 32 := by
  unfold escapeChar
  split
  · exact .inr (.inl ⟨'"', by decide⟩)
  · exact .inr (.inl ⟨'\\', by decide⟩)
  · exact .inr (.inl ⟨'b', by decide⟩)
  · exact .inr (.inl ⟨'f', by decide⟩)
  · exact .inr (.inl ⟨'n', by decide⟩)
  · exact .inr (.inl ⟨'r', by decide⟩)
  · exact .inr (.inl ⟨'t', by decide⟩)
  next hquote hbackslash _ _ _ _ _ =>
    split
    next hcontrol => exact .inr (.inr ⟨rfl, hcontrol⟩)
    next hcontrol => exact .inl ⟨rfl, hquote, hbackslash, Nat.not_lt.mp hcontrol⟩

theorem stringBody_plain {c : Char} (hquote : c ≠ '"') (hbackslash : c ≠ '\\')
    (hc : 32 ≤ c.toNat) (done rest : List Char) :
    stringBody done (c :: rest) = stringBody (c :: done) rest := by
  rw [stringBody.eq_5 done c rest hquote (by simp [hbackslash]) (by simp [hbackslash])
    (by simp [hbackslash]), if_neg (by simp [hbackslash, Nat.not_lt.mpr hc])]

theorem stringBody_short {letter c : Char} (hu : letter ≠ 'u')
    (hletter : shortEscape? letter = some c) (done rest : List Char) :
    stringBody done ('\\' :: letter :: rest) = stringBody (c :: done) rest := by
  rw [stringBody.eq_4 done letter rest (by simp [hu]) (by simp [hu]), hletter]

/-- A code unit that is no surrogate stands for its character, also in front of another one. -/
theorem stringBody_unit {a b c d ch : Char} {unit : Nat} (hunit : codeUnit? a b c d = some unit)
    (hch : unitChar? unit = some ch) (done rest : List Char) :
    stringBody done ('\\' :: 'u' :: a :: b :: c :: d :: rest) = stringBody (ch :: done) rest := by
  by_cases hpair : ∃ a' b' c' d' later, rest = '\\' :: 'u' :: a' :: b' :: c' :: d' :: later
  · obtain ⟨a', b', c', d', later, rfl⟩ := hpair
    rw [stringBody.eq_2, hunit]
    simp only [hch]
  · rw [stringBody.eq_3 done a b c d rest fun a' b' c' d' later hrest =>
      hpair ⟨a', b', c', d', later, hrest⟩, hunit, Option.bind_some, hch]

theorem stringBody_escapeChar (c : Char) (done rest : List Char) :
    stringBody done (escapeChar c ++ rest) = stringBody (c :: done) rest := by
  obtain ⟨hplain, hquote, hbackslash, hc⟩ | ⟨letter, hshort, hu, hletter⟩ | ⟨hcode, hc⟩ :=
    escapeChar_cases c
  · rw [hplain]
    exact stringBody_plain hquote hbackslash hc done rest
  · rw [hshort]
    exact stringBody_short hu hletter done rest
  · have hunit : codeUnit? '0' '0' (hexDigit (c.toNat / 16)) (hexDigit (c.toNat % 16)) =
        some c.toNat := by
      have hzero : hexValue? '0' = some 0 := rfl
      simp only [codeUnit?, hzero, hexValue?_hexDigit _ (show c.toNat / 16 < 16 by omega),
        hexValue?_hexDigit _ (show c.toNat % 16 < 16 by omega), Option.bind_eq_bind,
        Option.bind_some, Option.pure_def, Option.some.injEq]
      omega
    have hch : unitChar? c.toNat = some c := by
      rw [unitChar?, if_neg (by omega), Char.ofNat_toNat]
    rw [hcode]
    exact stringBody_unit hunit hch done rest

theorem stringBody_flatMap (text done rest : List Char) :
    stringBody done (text.flatMap escapeChar ++ '"' :: rest) =
      some (done.reverse ++ text, rest) := by
  induction text generalizing done with
  | nil => rw [List.flatMap_nil, List.nil_append, stringBody.eq_1, List.append_nil]
  | cons c text ih =>
      rw [List.flatMap_cons, List.append_assoc, stringBody_escapeChar, ih, List.reverse_cons,
        List.append_assoc, List.singleton_append]

/-- A quoted text, with what follows it. -/
theorem quote_append (text rest : List Char) :
    quote text ++ rest = '"' :: (text.flatMap escapeChar ++ '"' :: rest) := by
  simp [quote]

theorem string?_quote (text : String) (rest : List Char) :
    string? (quote text.toList ++ rest) = some (text, rest) := by
  rw [quote_append, string?, stringBody_flatMap]
  simp

theorem le_toNat_of_mem_escapeChar {ch c : Char} (hc : c ∈ escapeChar ch) : 32 ≤ c.toNat := by
  obtain ⟨hplain, -, -, hge⟩ | ⟨letter, hshort, -, hletter⟩ | ⟨hcode, hlt⟩ := escapeChar_cases ch
  · rw [hplain, List.mem_singleton] at hc
    rwa [hc]
  · have hge : 32 ≤ letter.toNat := by
      unfold shortEscape? at hletter
      split at hletter <;> simp at hletter ⊢
    rw [hshort] at hc
    simp only [List.mem_cons, List.not_mem_nil, or_false] at hc
    obtain rfl | rfl := hc
    · decide
    · exact hge
  · have hcodes : ∀ unit < 32, ∀ d ∈ ['\\', 'u', '0', '0', hexDigit (unit / 16),
        hexDigit (unit % 16)], 32 ≤ d.toNat := by decide
    rw [hcode] at hc
    exact hcodes _ hlt c hc

/-- What is written of a string holds no control characters. -/
theorem le_toNat_of_mem_quote {text : List Char} {c : Char} (hc : c ∈ quote text) :
    32 ≤ c.toNat := by
  simp only [quote, List.cons_append, List.mem_cons, List.mem_append, List.mem_flatMap,
    List.not_mem_nil, or_false] at hc
  obtain rfl | ⟨ch, -, hmem⟩ | rfl := hc
  · decide
  · exact le_toNat_of_mem_escapeChar hmem
  · decide

-- A control character is read back from its code, also where another code follows.
example : string? (quote ['\x01', '\x1f', '"'] ++ [',']) =
    some ("\x01\x1f\"", [',']) := by
  cbv

/-! ## Numbers -/

/-- A text at which a number ends: it goes on with none of the characters of a number. -/
def EndsNumber (rest : List Char) : Prop :=
  ∀ c ∈ rest.head?, c.isDigit = false ∧ c ≠ '.' ∧ c ≠ 'e' ∧ c ≠ 'E'

theorem digitsValue_toDigits (n : Nat) : digitsValue (Nat.toDigits 10 n) = n :=
  Nat.ofDigitChars_ten_toDigits

/-- A positive number is not written with a leading zero. -/
theorem head?_toDigits_ne {n : Nat} (hn : 0 < n) : (Nat.toDigits 10 n).head? ≠ some '0' := by
  induction n using Nat.strongRecOn with
  | ind n ih =>
      by_cases hlt : n < 10
      · have hdigit : ∀ d < 10, 0 < d → some (Nat.digitChar d) ≠ some '0' := by decide
        rw [Nat.toDigits_of_lt_base hlt, List.head?_singleton]
        exact hdigit n hlt hn
      · have hge : 10 ≤ n := Nat.not_lt.mp hlt
        rw [Nat.toDigits_of_base_le (by decide) hge,
          List.head?_append_of_ne_nil _ Nat.toDigits_ne_nil]
        exact ih (n / 10) (by omega) (by omega)

theorem integer?_toDigits (n : Nat) {rest : List Char} (hrest : EndsNumber rest) :
    integer? (Nat.toDigits 10 n ++ rest) = some (Nat.toDigits 10 n, rest) := by
  rcases Nat.eq_zero_or_pos n with rfl | hn
  · rfl
  · have hdigits : ∀ c ∈ Nat.toDigits 10 n, c.isDigit = true := fun _ => isDigit_of_mem_toDigits
    have hends : ∀ c ∈ rest.head?, c.isDigit = false := fun c hc => (hrest c hc).1
    have hhead := head?_toDigits_ne hn
    have htake := takeWhile_append_of_head hdigits hends
    have hdrop := dropWhile_append_of_head hdigits hends
    cases hwritten : Nat.toDigits 10 n with
    | nil => exact absurd hwritten Nat.toDigits_ne_nil
    | cons d ds =>
        rw [hwritten] at hhead htake hdrop
        rw [List.cons_append, integer?, digits?, ← List.cons_append, htake, hdrop]
        intro later hzero
        exact hhead (congrArg some (List.cons.inj hzero).1)

theorem numeral?_toDigits (n : Nat) {rest : List Char} (hrest : EndsNumber rest) :
    numeral? false (Nat.toDigits 10 n ++ rest) =
      some (⟨false, Nat.toDigits 10 n, [], none⟩, rest) := by
  have hfraction : fraction? rest = some ([], rest) := by
    cases rest with
    | nil => rfl
    | cons c cs => exact fraction?.eq_2 _ fun later hlater => (hrest c rfl).2.1 (by simp_all)
  have hexponent : exponent? rest = some (none, rest) := by
    cases rest with
    | nil => rfl
    | cons c cs => simp [exponent?, (hrest c rfl).2.2]
  simp [numeral?, integer?_toDigits n hrest, hfraction, hexponent]

/-- A number of 64 bits has at most twenty digits, so it is far from infinity. -/
theorem isFinite_toDigits {n : Nat} (hn : n < UInt64.size) :
    (Numeral.mk false (Nat.toDigits 10 n) [] none).isFinite = true := by
  have hlength : (Nat.toDigits 10 n).length ≤ 20 :=
    (Nat.length_toDigits_le_iff (by decide) (by decide)).mpr (Nat.lt_trans hn (by decide))
  have hdrop := (List.dropWhile_sublist (p := (· = '0')) (l := Nat.toDigits 10 n)).length_le
  simp only [Numeral.isFinite, List.append_nil, Option.getD_none, List.length_nil]
  rw [if_pos]
  simp only [Bool.or_eq_true, decide_eq_true_eq]
  right
  omega

theorem number?_toDigits {n : Nat} (hn : n < UInt64.size) {rest : List Char}
    (hrest : EndsNumber rest) :
    number? (Nat.toDigits 10 n ++ rest) = some (natural n, rest) := by
  have hnumeral := numeral?_toDigits n hrest
  have hunsigned : ∀ later, Nat.toDigits 10 n ++ rest ≠ '-' :: later := by
    intro later h
    cases hwritten : Nat.toDigits 10 n with
    | nil => exact absurd hwritten Nat.toDigits_ne_nil
    | cons d ds =>
        have hd : d.isDigit = true := isDigit_of_mem_toDigits (hwritten ▸ List.mem_cons_self)
        rw [hwritten, List.cons_append] at h
        obtain ⟨rfl, -⟩ := List.cons.inj h
        exact absurd hd (by decide)
  unfold number?
  split
  next afterSign h => exact absurd h (hunsigned afterSign)
  next =>
    simp [hnumeral, isFinite_toDigits hn, Numeral.isNatural, digitsValue_toDigits]

end ClassDiagram.Json
