import ClassDiagram.Text.Blank
import ClassDiagram.Text.Word

/-!
# Phrases

The pieces that declarations are recognized by. A *reader* splits a phrase off the head of a text,
or refuses; there is at most one way to read it. Where a phrase can end in several places, its
*splits* are listed in the order in which they are tried: the longest first, and an optional part
is tried before it is left out. In every split the phrase and the rest make up the text.
-/

namespace ClassDiagram.Source

open Text

/-- Splits a phrase off the head of a text, if it starts with one. -/
abbrev Reader := List Char → Option (List Char × List Char)

/-- The ways to split a phrase off the head of a text, in the order in which they are tried. -/
abbrev Splits := List Char → List (List Char × List Char)

/-- What follows `w` in a text that starts with it. -/
def after? : (w cs : List Char) → Option (List Char)
  | [], cs => some cs
  | _ :: _, [] => none
  | w :: ws, c :: cs => if w = c then after? ws cs else none

/-- A text is `w` and what follows it. -/
theorem after?_eq_some_iff {w cs rest : List Char} : after? w cs = some rest ↔ cs = w ++ rest := by
  induction w generalizing cs with
  | nil => simp [after?]
  | cons w ws ih =>
    cases cs with
    | nil => simp [after?]
    | cons c cs =>
      by_cases h : w = c
      · simp [after?, h, ih]
      · simp [after?, h, Ne.symm h]

namespace Reader

/-- The character `expected`. -/
def char (expected : Char) : Reader
  | [] => none
  | c :: cs => if c = expected then some ([c], cs) else none

/-- White space, or nothing. -/
def gap : Reader := fun cs => some (blanks cs)

/-- White space of at least one character. -/
def space : Reader := blanks?

/-- The first of `words` that the text starts with, whatever follows it. -/
def word (words : List String) : Reader := fun cs =>
  words.findSome? fun w => (after? w.toList cs).map fun rest => (w.toList, rest)

/-- Nothing, at a place where a word may end. -/
def wordEnd : Reader := fun cs => if endsWord cs then some ([], cs) else none

/-- A letter of ASCII or an underscore, and then the longest run of characters with `p`. -/
def named (p : Char → Bool) : Reader
  | [] => none
  | c :: cs =>
    if c.isAlpha || c = '_' then some (c :: cs.takeWhile p, cs.dropWhile p) else none

/-- An identifier. It starts with a letter of ASCII or an underscore. -/
def identifier : Reader := named isWord

/-- An identifier that may contain dots. -/
def qualified : Reader := named fun c => isWord c || c = '.'

/-- One phrase after the other. -/
def andThen (first second : Reader) : Reader := fun cs => do
  let (a, afterFirst) ← first cs
  let (b, rest) ← second afterFirst
  some (a ++ b, rest)

/-- The phrases of a list, one after the other. -/
def sequence (readers : List Reader) : Reader :=
  readers.foldr andThen fun cs => some ([], cs)

end Reader

/-! ## Readers shorten the text -/

theorem length_blanks? {cs gap rest : List Char} (h : blanks? cs = some (gap, rest)) :
    rest.length < cs.length := by
  cases cs with
  | nil => simp [blanks?] at h
  | cons c cs =>
    by_cases hc : isBlank c
    · simp only [blanks?, hc, if_true, Option.some.injEq, blanks, Prod.mk.injEq] at h
      rw [← h.2, List.dropWhile_cons, if_pos hc, List.length_cons]
      exact Nat.lt_succ_of_le (List.dropWhile_sublist _).length_le
    · simp [blanks?, hc] at h

theorem length_word {words : List String} {cs w rest : List Char}
    (h : Reader.word words cs = some (w, rest)) : rest.length ≤ cs.length := by
  obtain ⟨v, _, hv⟩ := List.exists_of_findSome?_eq_some h
  obtain ⟨r, hr, he⟩ := Option.map_eq_some_iff.mp hv
  cases he
  simp [after?_eq_some_iff.mp hr]

/-! ## Phrases of several words -/

/-- Access keywords, each followed by white space, as many as there are. -/
def accessWords (keywords : List String) (cs : List Char) : List Char × List Char :=
  match _hw : Reader.word keywords cs with
  | none => ([], cs)
  | some (w, afterWord) =>
    match _hs : blanks? afterWord with
    | none => ([], cs)
    | some (gap, afterGap) =>
      let (further, rest) := accessWords keywords afterGap
      (w ++ gap ++ further, rest)
termination_by cs.length
decreasing_by
  have := length_word _hw
  have := length_blanks? _hs
  omega

/-- Brackets of array types, with white space in front of each and only white space and commas
inside, as many as there are. -/
def arrayBrackets (cs : List Char) : List Char × List Char :=
  match _hb : blanks cs with
  | (gap, '[' :: afterOpen) =>
    let inside := fun c => isBlank c || c = ','
    match _hi : afterOpen.dropWhile inside with
    | ']' :: afterClose =>
      let (further, rest) := arrayBrackets afterClose
      (gap ++ '[' :: afterOpen.takeWhile inside ++ ']' :: further, rest)
    | _ => ([], cs)
  | _ => ([], cs)
termination_by cs.length
decreasing_by
  have hopen : (cs.dropWhile isBlank).length ≤ cs.length :=
    (List.dropWhile_sublist _).length_le
  have hclose : (afterOpen.dropWhile fun c => isBlank c || c = ',').length ≤ afterOpen.length :=
    (List.dropWhile_sublist _).length_le
  simp only [blanks, Prod.mk.injEq] at _hb
  simp only [_hb.2, List.length_cons] at hopen
  simp only [inside] at _hi
  simp only [_hi, List.length_cons] at hclose
  omega

/-- White space between an access keyword and what it applies to, with modifiers inside: every
modifier stands between white space. The splits take fewer and fewer of the modifiers, so that in
the end the first of them is left to be read as a type. -/
def leads (modifiers : List String) (cs : List Char) : List (List Char × List Char) :=
  match _hs : blanks? cs with
  | none => []
  | some (gap, afterGap) =>
    match _hw : Reader.word modifiers afterGap with
    | none => [(gap, afterGap)]
    | some (w, afterWord) =>
      (leads modifiers afterWord).map (fun (further, rest) => (gap ++ w ++ further, rest))
        ++ [(gap, afterGap)]
termination_by cs.length
decreasing_by
  have := length_blanks? _hs
  have := length_word _hw
  omega

/-! ## Types -/

/-- Characters that do not occur between the angle brackets of a type. -/
def endsArguments (c : Char) : Bool :=
  c = ';' || c = '{' || c = '}' || c = '(' || c = ')' || c = '='

/-- The texts up to and including a closing angle bracket, the last one first. -/
def upToClosing : Splits
  | [] => []
  | c :: cs =>
    if endsArguments c then []
    else
      let later := (upToClosing cs).map fun (inside, rest) => (c :: inside, rest)
      if c = '>' then later ++ [([c], cs)] else later

/-- Angle brackets and what stands between them. The closing bracket tried first is the last one
before a character that ends the arguments; the brackets inside need not be balanced. -/
def arguments : Splits
  | '<' :: cs => (upToClosing cs).map fun (inside, rest) => ('<' :: inside, rest)
  | _ => []

/-- Arguments with white space in front, or nothing. -/
def optionalArguments : Splits := fun cs =>
  let (gap, afterGap) := blanks cs
  (arguments afterGap).map (fun (args, rest) => (gap ++ args, rest)) ++ [([], cs)]

/-- What may follow the name and the arguments of a type: array brackets and a question mark. -/
def typeSuffix (cs : List Char) : List Char × List Char :=
  let (brackets, afterBrackets) := arrayBrackets cs
  match afterBrackets with
  | '?' :: rest => (brackets ++ ['?'], rest)
  | _ => (brackets, afterBrackets)

/-- A type: a qualified name, optional arguments, and a suffix. -/
def types : Splits := fun cs =>
  match Reader.qualified cs with
  | none => []
  | some (name, afterName) =>
    (optionalArguments afterName).map fun (args, afterArguments) =>
      let (suffix, rest) := typeSuffix afterArguments
      (name ++ args ++ suffix, rest)

/-- A type that is a plain identifier. -/
def bareTypes : Splits := fun cs => (Reader.identifier cs).toList

end ClassDiagram.Source
