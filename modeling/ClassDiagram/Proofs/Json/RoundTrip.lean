import ClassDiagram.Proofs.Json.Lexeme

/-!
# Reading what is printed

Every value of strings, natural numbers of 64 bits, lists and fields is read back from its text in
either layout. The reader is given enough fuel by the length of the text alone.
-/

namespace ClassDiagram.Json

open Text

/-- A value without any other numbers than natural ones of 64 bits. -/
inductive Plain : Json → Prop
  | null : Plain null
  | bool (b : Bool) : Plain (bool b)
  | natural {n : Nat} (h : n < UInt64.size) : Plain (natural n)
  | string (text : String) : Plain (string text)
  | array {items : List Json} (h : ∀ item ∈ items, item.Plain) : Plain (array items)
  | object {fields : List (String × Json)} (h : ∀ field ∈ fields, field.2.Plain) :
    Plain (object fields)

/-! ## Single steps of the reader -/

section Steps

variable {fuel : Nat} {cs later rest : List Char}

theorem skipBlanks_lineBreak (style : Style) (depth : Nat) (rest : List Char) :
    skipBlanks (style.lineBreak depth ++ rest) = skipBlanks rest := by
  cases style with
  | compact => rfl
  | pretty =>
      refine List.dropWhile_append_of_pos fun c hc => ?_
      rcases List.mem_cons.mp hc with rfl | hspace
      · rfl
      · rw [List.eq_of_mem_replicate hspace]
        rfl

@[simp]
theorem value?_lineBreak (style : Style) (depth : Nat) :
    value? fuel (style.lineBreak depth ++ rest) = value? fuel rest := by
  cases fuel with
  | zero => rfl
  | succ fuel => rw [value?, value?, skipBlanks_lineBreak]

@[simp]
theorem items?_lineBreak (style : Style) (depth : Nat) :
    items? fuel (style.lineBreak depth ++ rest) = items? fuel rest := by
  cases fuel with
  | zero => rfl
  | succ fuel => rw [items?, items?, skipBlanks_lineBreak]

@[simp]
theorem field?_lineBreak (style : Style) (depth : Nat) :
    field? fuel (style.lineBreak depth ++ rest) = field? fuel rest := by
  cases fuel with
  | zero => rfl
  | succ fuel => rw [field?, field?, skipBlanks_lineBreak]

@[simp]
theorem fields?_lineBreak (style : Style) (depth : Nat) :
    fields? fuel (style.lineBreak depth ++ rest) = fields? fuel rest := by
  cases fuel with
  | zero => rfl
  | succ fuel => rw [fields?, fields?, skipBlanks_lineBreak]

theorem value?_of_isDigit {d : Char} (hd : d.isDigit = true) :
    value? (fuel + 1) (d :: cs) = number? (d :: cs) := by
  have hne : ∀ c : Char, c.isDigit = false → d ≠ c := by
    rintro c hc rfl
    exact absurd (hc.symm.trans hd) Bool.false_ne_true
  have hskip : skipBlanks (d :: cs) = d :: cs := by
    simp [skipBlanks, hne ' ' rfl, hne '\t' rfl, hne '\n' rfl, hne '\r' rfl]
  simp [value?, hskip, hne 'n' rfl, hne 't' rfl, hne 'f' rfl, hne '"' rfl, hne '[' rfl,
    hne '\x7b' rfl]

theorem value?_toDigits {n : Nat} (hn : n < UInt64.size) (hrest : EndsNumber rest) :
    value? (fuel + 1) (Nat.toDigits 10 n ++ rest) = some (natural n, rest) := by
  have hnumber := number?_toDigits hn hrest
  cases hwritten : Nat.toDigits 10 n with
  | nil => exact absurd hwritten Nat.toDigits_ne_nil
  | cons d ds =>
      rw [hwritten] at hnumber
      have hd : d.isDigit = true := isDigit_of_mem_toDigits (hwritten ▸ List.mem_cons_self)
      rw [List.cons_append, value?_of_isDigit hd]
      exact hnumber

theorem value?_quote (text : String) :
    value? (fuel + 1) (quote text.toList ++ rest) = some (string text, rest) := by
  have hstring := string?_quote text rest
  rw [quote_append] at hstring ⊢
  change (string? _).map _ = _
  rw [hstring]
  rfl

/-- No value starts with a closing bracket. -/
theorem value?_bracket (hskip : skipBlanks cs = ']' :: rest) : value? fuel cs = none := by
  cases fuel with
  | zero => rfl
  | succ fuel =>
      rw [value?, hskip]
      rfl

theorem value?_array {first : Json} {others : List Json}
    (hfirst : value? fuel cs = some (first, later))
    (hothers : items? fuel later = some (others, rest)) :
    value? (fuel + 1) ('[' :: cs) = some (array (first :: others), rest) := by
  -- The reader looks for the end of an empty array first.
  have hopen : ∀ after, skipBlanks cs ≠ ']' :: after := by
    intro after hskip
    rw [value?_bracket hskip] at hfirst
    exact absurd hfirst (by simp)
  have hskip : skipBlanks ('[' :: cs) = '[' :: cs := rfl
  simp [value?, hskip, hfirst, hothers]

theorem items?_cons {item : Json} {others : List Json} (hitem : value? fuel cs = some (item, later))
    (hothers : items? fuel later = some (others, rest)) :
    items? (fuel + 1) (',' :: cs) = some (item :: others, rest) := by
  have hskip : skipBlanks (',' :: cs) = ',' :: cs := rfl
  rw [items?, hskip]
  simp [hitem, hothers]

/-- A field with a value for which there is enough fuel after the name is read. -/
theorem field?_quote (name : String) (style : Style) {value : Json} (hfuel : 0 < fuel)
    (hvalue : value? (fuel - 1) cs = some (value, rest)) :
    field? fuel (quote name.toList ++ (style.colon ++ cs)) = some ((name, value), rest) := by
  obtain ⟨fuel, rfl⟩ := Nat.exists_eq_add_one.mpr hfuel
  rw [Nat.add_sub_cancel] at hvalue
  have hskip : skipBlanks (quote name.toList ++ (style.colon ++ cs)) =
      quote name.toList ++ (style.colon ++ cs) := rfl
  have hcolon : ∃ gap, skipBlanks (style.colon ++ cs) = ':' :: (gap ++ cs) ∧
      value? fuel (gap ++ cs) = some (value, rest) := by
    cases style with
    | compact => exact ⟨[], rfl, hvalue⟩
    | pretty =>
        refine ⟨[' '], rfl, ?_⟩
        rw [← hvalue]
        cases fuel <;> rfl
  obtain ⟨gap, hcolon, hvalue⟩ := hcolon
  rw [field?, hskip, string?_quote]
  simp [hcolon, hvalue]

/-- No field starts with a closing brace. -/
theorem field?_brace (hskip : skipBlanks cs = '\x7d' :: rest) : field? fuel cs = none := by
  cases fuel with
  | zero => rfl
  | succ fuel =>
      rw [field?, hskip]
      rfl

theorem value?_object {first : String × Json} {others : List (String × Json)}
    (hfirst : field? fuel cs = some (first, later))
    (hothers : fields? fuel later = some (others, rest)) :
    value? (fuel + 1) ('\x7b' :: cs) = some (object (first :: others), rest) := by
  have hopen : ∀ after, skipBlanks cs ≠ '\x7d' :: after := by
    intro after hskip
    rw [field?_brace hskip] at hfirst
    exact absurd hfirst (by simp)
  have hskip : skipBlanks ('\x7b' :: cs) = '\x7b' :: cs := rfl
  simp [value?, hskip, hfirst, hothers]

theorem fields?_cons {field : String × Json} {others : List (String × Json)}
    (hfield : field? fuel cs = some (field, later))
    (hothers : fields? fuel later = some (others, rest)) :
    fields? (fuel + 1) (',' :: cs) = some (field :: others, rest) := by
  have hskip : skipBlanks (',' :: cs) = ',' :: cs := rfl
  simp [fields?, hskip, hfield, hothers]

end Steps

/-! ## Whole values -/

theorem endsNumber_lineBreak (style : Style) (depth : Nat) {c : Char}
    (hc : c.isDigit = false ∧ c ≠ '.' ∧ c ≠ 'e' ∧ c ≠ 'E') (rest : List Char) :
    EndsNumber (style.lineBreak depth ++ c :: rest) := by
  cases style with
  | compact => exact fun d hd => Option.some.inj hd ▸ hc
  | pretty => exact fun d hd => Option.some.inj hd ▸ by decide

theorem endsNumber_items (style : Style) (depth inner : Nat) (items : List Json)
    (rest : List Char) :
    EndsNumber (printItems style inner items ++ (style.lineBreak depth ++ ']' :: rest)) := by
  cases items with
  | nil => exact endsNumber_lineBreak style depth (by decide) rest
  | cons item items => exact fun d hd => Option.some.inj hd ▸ by decide

theorem endsNumber_fields (style : Style) (depth inner : Nat) (fields : List (String × Json))
    (rest : List Char) :
    EndsNumber (printFields style inner fields ++ (style.lineBreak depth ++ '\x7d' :: rest)) := by
  cases fields with
  | nil => exact endsNumber_lineBreak style depth (by decide) rest
  | cons field fields => exact fun d hd => Option.some.inj hd ▸ by decide

/-- The text of an array with items, with what follows it. -/
theorem print_array (style : Style) (depth : Nat) (first : Json) (others : List Json)
    (rest : List Char) :
    print style depth (array (first :: others)) ++ rest =
      '[' :: (style.lineBreak (depth + 1) ++ (print style (depth + 1) first
        ++ (printItems style (depth + 1) others ++ (style.lineBreak depth ++ ']' :: rest)))) := by
  simp only [print, List.append_assoc, List.cons_append, List.nil_append]

/-- The text of an object with fields, with what follows it. -/
theorem print_object (style : Style) (depth : Nat) (name : String) (value : Json)
    (others : List (String × Json)) (rest : List Char) :
    print style depth (object ((name, value) :: others)) ++ rest =
      '\x7b' :: (style.lineBreak (depth + 1) ++ (quote name.toList ++ (style.colon
        ++ (print style (depth + 1) value ++ (printFields style (depth + 1) others
        ++ (style.lineBreak depth ++ '\x7d' :: rest)))))) := by
  simp only [print, List.append_assoc, List.cons_append, List.nil_append]

mutual

theorem value?_print (value : Json) (h : value.Plain) (style : Style) (depth : Nat)
    {rest : List Char} (hrest : EndsNumber rest) {fuel : Nat}
    (hfuel : (print style depth value).length < fuel) :
    value? fuel (print style depth value ++ rest) = some (value, rest) := by
  obtain _ | fuel := fuel
  · exact absurd hfuel (Nat.not_lt_zero _)
  match value, h with
  | null, _ => rfl
  | bool true, _ => rfl
  | bool false, _ => rfl
  | natural n, .natural hn => exact value?_toDigits hn hrest
  | string text, _ => exact value?_quote text
  | array [], _ => rfl
  | array (first :: others), .array hitems =>
    simp only [print, List.length_cons, List.length_append] at hfuel
    have hfirst := value?_print first (hitems first List.mem_cons_self) style (depth + 1)
      (endsNumber_items style depth (depth + 1) others rest)
      (show (print style (depth + 1) first).length < fuel by omega)
    have hothers := items?_printItems others (fun e he => hitems e (List.mem_cons_of_mem first he))
      style depth (depth + 1) rest
      (show (printItems style (depth + 1) others).length < fuel by omega)
    rw [← value?_lineBreak style (depth + 1)] at hfirst
    rw [print_array]
    exact value?_array hfirst hothers
  | object [], _ => rfl
  | object ((name, value) :: others), .object hfields =>
    simp only [print, List.length_cons, List.length_append] at hfuel
    have hquote : 0 < (quote name.toList).length := Nat.succ_pos _
    have hvalue := value?_print value (hfields (name, value) List.mem_cons_self) style (depth + 1)
      (endsNumber_fields style depth (depth + 1) others rest)
      (show (print style (depth + 1) value).length < fuel - 1 by omega)
    have hfirst := field?_quote name style (by omega) hvalue
    have hothers := fields?_printFields others
      (fun e he => hfields e (List.mem_cons_of_mem (name, value) he)) style depth (depth + 1) rest
      (show (printFields style (depth + 1) others).length < fuel by omega)
    rw [← field?_lineBreak style (depth + 1)] at hfirst
    rw [print_object]
    exact value?_object hfirst hothers

theorem items?_printItems (items : List Json) (h : ∀ item ∈ items, item.Plain) (style : Style)
    (depth inner : Nat) (rest : List Char) {fuel : Nat}
    (hfuel : (printItems style inner items).length < fuel) :
    items? fuel (printItems style inner items ++ (style.lineBreak depth ++ ']' :: rest)) =
      some (items, rest) := by
  obtain _ | fuel := fuel
  · exact absurd hfuel (Nat.not_lt_zero _)
  match items, h with
  | [], _ =>
    rw [printItems, List.nil_append, items?_lineBreak]
    rfl
  | item :: others, h =>
    simp only [printItems, List.length_cons, List.length_append] at hfuel
    have hitem := value?_print item (h item List.mem_cons_self) style inner
      (endsNumber_items style depth inner others rest)
      (show (print style inner item).length < fuel by omega)
    have hothers := items?_printItems others (fun e he => h e (List.mem_cons_of_mem item he)) style
      depth inner rest (show (printItems style inner others).length < fuel by omega)
    rw [← value?_lineBreak style inner] at hitem
    simp only [printItems, List.append_assoc, List.cons_append]
    exact items?_cons hitem hothers

theorem fields?_printFields (fields : List (String × Json)) (h : ∀ field ∈ fields, field.2.Plain)
    (style : Style) (depth inner : Nat) (rest : List Char) {fuel : Nat}
    (hfuel : (printFields style inner fields).length < fuel) :
    fields? fuel (printFields style inner fields ++ (style.lineBreak depth ++ '\x7d' :: rest)) =
      some (fields, rest) := by
  obtain _ | fuel := fuel
  · exact absurd hfuel (Nat.not_lt_zero _)
  match fields, h with
  | [], _ =>
    rw [printFields, List.nil_append, fields?_lineBreak]
    rfl
  | (name, value) :: others, h =>
    simp only [printFields, List.length_cons, List.length_append] at hfuel
    have hquote : 0 < (quote name.toList).length := Nat.succ_pos _
    have hvalue := value?_print value (h (name, value) List.mem_cons_self) style inner
      (endsNumber_fields style depth inner others rest)
      (show (print style inner value).length < fuel - 1 by omega)
    have hfield := field?_quote name style (by omega) hvalue
    have hothers := fields?_printFields others
      (fun e he => h e (List.mem_cons_of_mem (name, value) he)) style depth inner rest
      (show (printFields style inner others).length < fuel by omega)
    rw [← field?_lineBreak style inner] at hfield
    simp only [printFields, List.append_assoc, List.cons_append]
    exact fields?_cons hfield hothers

end

/-- A plain value is read back from its text, in either layout. -/
theorem parse_render {value : Json} (h : value.Plain) (style : Style) :
    parse (value.render style) = some value := by
  have hread : value? ((print style 0 value).length + 1) (print style 0 value ++ []) =
      some (value, []) :=
    value?_print value h style 0 (by simp [EndsNumber]) (Nat.lt_succ_self _)
  rw [List.append_nil] at hread
  rw [parse, render, String.toList_ofList]
  simp only [hread]
  rfl

/-! ## One line -/

mutual

/-- What is written of a value in the compact layout holds no control characters. -/
theorem le_toNat_of_mem_print (value : Json) (h : value.Plain) (depth : Nat) :
    ∀ c ∈ print .compact depth value, 32 ≤ c.toNat := by
  match value, h with
  | null, _ => exact (by decide : ∀ c ∈ ['n', 'u', 'l', 'l'], 32 ≤ c.toNat)
  | bool true, _ => exact (by decide : ∀ c ∈ ['t', 'r', 'u', 'e'], 32 ≤ c.toNat)
  | bool false, _ => exact (by decide : ∀ c ∈ ['f', 'a', 'l', 's', 'e'], 32 ≤ c.toNat)
  | natural n, _ =>
    intro c hc
    have hcode := (toNat_of_isDigit (isDigit_of_mem_toDigits hc)).1
    omega
  | string text, _ => exact fun c => le_toNat_of_mem_quote
  | array [], _ => exact (by decide : ∀ c ∈ ['[', ']'], 32 ≤ c.toNat)
  | array (first :: others), .array hitems =>
    have hfirst := le_toNat_of_mem_print first (hitems first List.mem_cons_self) (depth + 1)
    have hothers := le_toNat_of_mem_printItems others
      (fun e he => hitems e (List.mem_cons_of_mem first he)) (depth + 1)
    simp only [print, Style.lineBreak, List.append_assoc, List.cons_append, List.nil_append,
      List.forall_mem_cons, List.forall_mem_append]
    exact ⟨by decide, hfirst, hothers, by decide⟩
  | object [], _ => exact (by decide : ∀ c ∈ ['\x7b', '\x7d'], 32 ≤ c.toNat)
  | object ((name, value) :: others), .object hfields =>
    have hvalue := le_toNat_of_mem_print value (hfields (name, value) List.mem_cons_self)
      (depth + 1)
    have hothers := le_toNat_of_mem_printFields others
      (fun e he => hfields e (List.mem_cons_of_mem (name, value) he)) (depth + 1)
    simp only [print, Style.lineBreak, Style.colon, List.append_assoc, List.cons_append,
      List.nil_append, List.forall_mem_cons, List.forall_mem_append]
    exact ⟨by decide, fun c => le_toNat_of_mem_quote, by decide, hvalue, hothers, by decide⟩

theorem le_toNat_of_mem_printItems (items : List Json) (h : ∀ item ∈ items, item.Plain)
    (depth : Nat) : ∀ c ∈ printItems .compact depth items, 32 ≤ c.toNat := by
  match items, h with
  | [], _ => exact fun c hc => absurd hc List.not_mem_nil
  | item :: others, h =>
    have hitem := le_toNat_of_mem_print item (h item List.mem_cons_self) depth
    have hothers := le_toNat_of_mem_printItems others
      (fun e he => h e (List.mem_cons_of_mem item he)) depth
    simp only [printItems, Style.lineBreak, List.cons_append, List.nil_append,
      List.forall_mem_cons, List.forall_mem_append]
    exact ⟨by decide, hitem, hothers⟩

theorem le_toNat_of_mem_printFields (fields : List (String × Json))
    (h : ∀ field ∈ fields, field.2.Plain) (depth : Nat) :
    ∀ c ∈ printFields .compact depth fields, 32 ≤ c.toNat := by
  match fields, h with
  | [], _ => exact fun c hc => absurd hc List.not_mem_nil
  | (name, value) :: others, h =>
    have hvalue := le_toNat_of_mem_print value (h (name, value) List.mem_cons_self) depth
    have hothers := le_toNat_of_mem_printFields others
      (fun e he => h e (List.mem_cons_of_mem (name, value) he)) depth
    simp only [printFields, Style.lineBreak, Style.colon, List.append_assoc, List.cons_append,
      List.nil_append, List.forall_mem_cons, List.forall_mem_append]
    exact ⟨by decide, fun c => le_toNat_of_mem_quote, by decide, hvalue, hothers⟩

end

/-- The compact text of a plain value is one line. -/
theorem newline_not_mem_render {value : Json} (h : value.Plain) :
    '\n' ∉ (value.render .compact).toList := by
  rw [render, String.toList_ofList]
  intro hmem
  exact absurd (le_toNat_of_mem_print value h 0 '\n' hmem) (by decide)

end ClassDiagram.Json
