import ClassDiagram.Proofs.Text.Blank
import ClassDiagram.Proofs.Xml.RoundTrip

/-!
# Legal characters

A document may not have every character: of the control characters only tab, line feed and carriage
return are legal, and two characters of the basic plane are not. No reference stands for an illegal
character, so escaping can do nothing about them. What is printed has exactly the illegal characters
that its values have, each where it stands in them.
-/

namespace ClassDiagram.Xml

/-- The production `Char` of XML 1.0. -/
def isLegal (c : Char) : Bool :=
  let n := c.toNat
  n = 9 || n = 10 || n = 13 || (0x20 ≤ n && n ≤ 0xD7FF) || (0xE000 ≤ n && n ≤ 0xFFFD)
    || (0x10000 ≤ n && n ≤ 0x10FFFF)

/-- The characters of a text that no document may have, in order. -/
def illegal (text : List Char) : List Char := text.filter (!isLegal ·)

/-! ## Texts -/

theorem mem_illegal {text : List Char} {c : Char} :
    c ∈ illegal text ↔ c ∈ text ∧ isLegal c = false := by
  rw [illegal, List.mem_filter, Bool.not_eq_true']

theorem illegal_eq_nil_iff {text : List Char} :
    illegal text = [] ↔ ∀ c ∈ text, isLegal c = true := by
  simp [illegal, List.filter_eq_nil_iff]

@[simp]
theorem illegal_nil : illegal [] = [] := rfl

theorem illegal_append (a b : List Char) : illegal (a ++ b) = illegal a ++ illegal b :=
  List.filter_append a b

theorem illegal_cons (c : Char) (text : List Char) :
    illegal (c :: text) = illegal [c] ++ illegal text := illegal_append [c] text

theorem illegal_cons_of_isLegal {c : Char} (hc : isLegal c = true) (text : List Char) :
    illegal (c :: text) = illegal text := by
  simp [illegal, hc]

theorem illegal_ofList {text : List Char} (h : illegal text = []) :
    illegal (String.ofList text).toList = [] := by
  rw [String.toList_ofList, h]

theorem illegal_toList_append {a b : String} (ha : illegal a.toList = [])
    (hb : illegal b.toList = []) : illegal (a ++ b).toList = [] := by
  rw [String.toList_append, illegal_append, ha, hb, List.nil_append]

/-- The characters of ASCII that show are legal. -/
theorem isLegal_of_toNat {c : Char} (hlow : 0x20 ≤ c.toNat) (hhigh : c.toNat ≤ 0x7E) :
    isLegal c = true := by
  simp only [isLegal, Bool.or_eq_true, Bool.and_eq_true, decide_eq_true_eq]
  omega

theorem isLegal_of_isDigit {c : Char} (h : c.isDigit = true) : isLegal c = true := by
  have hrange := Text.toNat_of_isDigit h
  exact isLegal_of_toNat (by omega) (by omega)

/-- Beyond ASCII only two characters are illegal, and neither continues a word. -/
theorem isLegal_of_isWord {c : Char} (h : Text.isWord c = true) : isLegal c = true := by
  rw [Text.isWord] at h
  split at h
  next =>
    have hrange := Text.toNat_of_isAsciiWord h
    exact isLegal_of_toNat (by omega) (by omega)
  next hwide =>
    have hapart : (Text.wordRanges.all fun r => r.2 < 0xFFFE || 0xFFFF < r.1) = true := by
      decide +kernel
    obtain ⟨r, hr, hword⟩ := List.any_eq_true.mp h
    have hr := List.all_eq_true.mp hapart r hr
    have hscalar : c.toNat < 0xD800 ∨ 0xDFFF < c.toNat ∧ c.toNat < 0x110000 := c.valid
    simp only [Bool.or_eq_true, Bool.and_eq_true, decide_eq_true_eq] at hr hword
    simp only [isLegal, Bool.or_eq_true, Bool.and_eq_true, decide_eq_true_eq]
    omega

theorem isLegal_of_continuesName {c : Char} (h : continuesName c = true) : isLegal c = true := by
  simp only [continuesName, startsName, Bool.or_eq_true, decide_eq_true_eq] at h
  rcases h with ((((halpha | rfl) | rfl) | hdigit) | rfl) | rfl
  · have hrange := Text.toNat_of_isAlpha halpha
    exact isLegal_of_toNat (by omega) (by omega)
  · decide
  · decide
  · exact isLegal_of_isDigit hdigit
  · decide
  · decide

theorem illegal_of_isName {name : List Char} (h : isName name = true) : illegal name = [] := by
  obtain ⟨c, rest, rfl, hstarts, hcontinues⟩ := exists_of_isName h
  have hfirst : continuesName c = true := by
    simp [continuesName, hstarts]
  rw [illegal_eq_nil_iff]
  intro d hd
  rcases List.mem_cons.mp hd with rfl | hd
  · exact isLegal_of_continuesName hfirst
  · exact isLegal_of_continuesName (hcontinues d hd)

theorem illegal_replicate_space (count : Nat) : illegal (List.replicate count ' ') = [] := by
  rw [illegal_eq_nil_iff]
  intro c hc
  rw [List.eq_of_mem_replicate hc]
  decide

/-! ## What is printed -/

/-- Only legal characters are written as references. -/
theorem illegal_escapeChar (c : Char) : illegal (escapeChar c) = illegal [c] := by
  unfold escapeChar
  split
  case h_9 => rfl
  all_goals decide

theorem illegal_escape (text : List Char) : illegal (escape text) = illegal text := by
  induction text with
  | nil => rfl
  | cons c text ih => rw [escape_cons, illegal_append, illegal_escapeChar, ih, ← illegal_cons]

/-- The illegal characters of values that follow each other. -/
def illegalIn (values : List String) : List Char := values.flatMap fun value => illegal value.toList

@[simp]
theorem illegalIn_nil : illegalIn [] = [] := rfl

theorem illegalIn_append (a b : List String) : illegalIn (a ++ b) = illegalIn a ++ illegalIn b :=
  List.flatMap_append

theorem illegalIn_cons (value : String) (values : List String) :
    illegalIn (value :: values) = illegal value.toList ++ illegalIn values := List.flatMap_cons

theorem illegal_printAttributes {attributes : List (String × String)}
    (hnames : ∀ a ∈ attributes, isName a.1.toList = true) :
    illegal (Element.printAttributes attributes) = illegalIn (attributes.map (·.2)) := by
  induction attributes with
  | nil => rfl
  | cons a attributes ih =>
      have hname := illegal_of_isName (hnames a List.mem_cons_self)
      have hquoted : illegal (escape a.2.toList ++ ['"']) = illegal a.2.toList := by
        rw [illegal_append, illegal_escape]
        exact List.append_nil _
      rw [printAttributes_cons, List.map_cons, illegalIn_cons, illegal_append,
        ih fun b hb => hnames b (List.mem_cons_of_mem a hb)]
      simp only [List.append_assoc, List.cons_append]
      rw [illegal_cons_of_isLegal (by decide), illegal_append, hname, List.nil_append,
        illegal_cons_of_isLegal (by decide), illegal_cons_of_isLegal (by decide), hquoted]

namespace Element

mutual

/-- The values of an element and of those in it, in the order of the text. -/
def values : Element → List String
  | node _ attributes children => attributes.map (·.2) ++ valuesOfAll children

/-- The values of elements that follow each other. -/
def valuesOfAll : List Element → List String
  | [] => []
  | element :: rest => values element ++ valuesOfAll rest

end

theorem valuesOfAll_eq_flatMap (elements : List Element) :
    valuesOfAll elements = elements.flatMap values := by
  induction elements with
  | nil => rfl
  | cons element rest ih => rw [valuesOfAll, ih, List.flatMap_cons]

/-- The start of a tag, up to what ends it. -/
theorem illegal_opening {name : String} {attributes : List (String × String)}
    (hname : isName name.toList = true) (hnames : ∀ a ∈ attributes, isName a.1.toList = true)
    (depth : Nat) :
    illegal (List.replicate (2 * depth) ' ' ++ '<' :: name.toList ++ printAttributes attributes) =
      illegalIn (attributes.map (·.2)) := by
  rw [illegal_append, illegal_append, illegal_replicate_space, illegal_cons_of_isLegal (by decide),
    illegal_of_isName hname, illegal_printAttributes hnames]
  rfl

theorem illegal_closing {name : String} (hname : isName name.toList = true) (depth : Nat) :
    illegal (List.replicate (2 * depth) ' ' ++ '<' :: '/' :: name.toList ++ ['>', '\n']) = [] := by
  rw [illegal_append, illegal_append, illegal_replicate_space, illegal_cons_of_isLegal (by decide),
    illegal_cons_of_isLegal (by decide), illegal_of_isName hname]
  decide

mutual

theorem illegal_print (element : Element) (h : element.WellFormed) (depth : Nat) :
    illegal (element.print depth) = illegalIn element.values := by
  match element, h with
  | node name attributes [], h =>
    obtain ⟨hname, hnames, _⟩ := h.parts
    rw [print, illegal_append, illegal_opening hname hnames, values, valuesOfAll, List.append_nil]
    exact List.append_nil _
  | node name attributes (child :: siblings), h =>
    obtain ⟨hname, hnames, _, hchildren⟩ := h.parts
    have hchild := hchildren child List.mem_cons_self
    have hsiblings := fun e he => hchildren e (List.mem_cons_of_mem child he)
    have hprint := print_parent name attributes child siblings depth []
    rw [List.append_nil, List.append_nil] at hprint
    rw [hprint, illegal_append, illegal_opening hname hnames, illegal_cons_of_isLegal (by decide),
      illegal_cons_of_isLegal (by decide), illegal_append, illegal_print child hchild,
      illegal_append, illegal_printAll siblings hsiblings, illegal_closing hname, List.append_nil,
      values, valuesOfAll, illegalIn_append, illegalIn_append]

theorem illegal_printAll (elements : List Element) (h : ∀ e ∈ elements, e.WellFormed)
    (depth : Nat) : illegal (printAll depth elements) = illegalIn (valuesOfAll elements) := by
  match elements, h with
  | [], _ => rfl
  | element :: siblings, h =>
    rw [printAll, valuesOfAll, illegal_append, illegalIn_append,
      illegal_print element (h element List.mem_cons_self),
      illegal_printAll siblings fun e he => h e (List.mem_cons_of_mem element he)]

end

end Element

/-- A document has the illegal characters of its values and no others. -/
theorem illegal_document (root : Element) (h : root.WellFormed) :
    illegal (document root) = illegalIn root.values := by
  have hline : illegal "<?xml version=\"1.0\" encoding=\"UTF-8\"?>\n".toList = [] :=
    illegal_ofList (by decide +kernel)
  exact (illegal_append _ _).trans
    ((congrArg (· ++ illegal (root.print 0)) hline).trans (root.illegal_print h 0))

end ClassDiagram.Xml
