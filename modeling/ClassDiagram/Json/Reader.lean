import ClassDiagram.Json.Number
import ClassDiagram.Json.Value

/-!
# Reading JSON

The strict grammar of JSON: no comments, no trailing commas, no white space but spaces, tabs and
line breaks, no control characters in strings, surrogate escapes only in pairs, and no number that
rounds to infinity.
-/

namespace ClassDiagram.Json

/-- The text after leading white space. -/
def skipBlanks (cs : List Char) : List Char :=
  cs.dropWhile fun c => c = ' ' || c = '\t' || c = '\n' || c = '\r'

/-! ## Strings -/

/-- The value of a hexadecimal digit, in either case. -/
def hexValue? (c : Char) : Option Nat :=
  if '0' ≤ c ∧ c ≤ '9' then some (c.toNat - 48)
  else if 'a' ≤ c ∧ c ≤ 'f' then some (c.toNat - 87)
  else if 'A' ≤ c ∧ c ≤ 'F' then some (c.toNat - 55)
  else none

/-- The value of four hexadecimal digits. -/
def codeUnit? (a b c d : Char) : Option Nat := do
  return 4096 * (← hexValue? a) + 256 * (← hexValue? b) + 16 * (← hexValue? c) + (← hexValue? d)

/-- The character of a single escaped code unit, which must not be a surrogate. -/
def unitChar? (unit : Nat) : Option Char :=
  if 0xD800 ≤ unit ∧ unit ≤ 0xDFFF then none else some (Char.ofNat unit)

/-- The character of a high surrogate and a low one. -/
def pairChar? (high low : Nat) : Option Char :=
  if (0xD800 ≤ high ∧ high ≤ 0xDBFF) ∧ (0xDC00 ≤ low ∧ low ≤ 0xDFFF) then
    some (Char.ofNat (0x10000 + 0x400 * (high - 0xD800) + (low - 0xDC00)))
  else none

/-- The character that a short escape stands for. -/
def shortEscape? : Char → Option Char
  | '"' => some '"'
  | '\\' => some '\\'
  | '/' => some '/'
  | 'b' => some '\x08'
  | 'f' => some '\x0c'
  | 'n' => some '\n'
  | 'r' => some '\r'
  | 't' => some '\t'
  | _ => none

/-- Reads the rest of a string, up to and including its closing quote, after the characters in
`done`, which are in reverse. -/
def stringBody (done : List Char) : List Char → Option (List Char × List Char)
  | '"' :: rest => some (done.reverse, rest)
  | '\\' :: 'u' :: a :: b :: c :: d :: '\\' :: 'u' :: a' :: b' :: c' :: d' :: rest =>
    match codeUnit? a b c d with
    | none => none
    | some unit =>
      match unitChar? unit with
      | some ch => stringBody (ch :: done) ('\\' :: 'u' :: a' :: b' :: c' :: d' :: rest)
      | none =>
        match (codeUnit? a' b' c' d').bind (pairChar? unit) with
        | some ch => stringBody (ch :: done) rest
        | none => none
  | '\\' :: 'u' :: a :: b :: c :: d :: rest =>
    match (codeUnit? a b c d).bind unitChar? with
    | some ch => stringBody (ch :: done) rest
    | none => none
  | '\\' :: e :: rest =>
    match shortEscape? e with
    | some ch => stringBody (ch :: done) rest
    | none => none
  | c :: rest => if c.toNat < 32 || c = '\\' then none else stringBody (c :: done) rest
  | [] => none

/-- Reads a string. -/
def string? : List Char → Option (String × List Char)
  | '"' :: cs => (stringBody [] cs).map fun (text, rest) => (String.ofList text, rest)
  | _ => none

/-! ## Numbers -/

/-- Reads digits, at least one. -/
def digits? (cs : List Char) : Option (List Char × List Char) :=
  match cs.takeWhile Char.isDigit with
  | [] => none
  | digits => some (digits, cs.dropWhile Char.isDigit)

/-- Reads the digits before the point. A zero in front of other digits stands alone. -/
def integer? : List Char → Option (List Char × List Char)
  | '0' :: rest => some (['0'], rest)
  | cs => digits? cs

/-- Reads a point and the digits after it, or nothing. -/
def fraction? : List Char → Option (List Char × List Char)
  | '.' :: rest => digits? rest
  | cs => some ([], cs)

/-- Reads the sign of an exponent, and its digits. -/
def signedDigits? : List Char → Option (Int × List Char)
  | '-' :: cs => (digits? cs).map fun (digits, rest) => (-(digitsValue digits : Int), rest)
  | '+' :: cs => (digits? cs).map fun (digits, rest) => ((digitsValue digits : Int), rest)
  | cs => (digits? cs).map fun (digits, rest) => ((digitsValue digits : Int), rest)

/-- Reads an exponent, or nothing. -/
def exponent? : List Char → Option (Option Int × List Char)
  | [] => some (none, [])
  | c :: cs =>
    if c = 'e' || c = 'E' then (signedDigits? cs).map fun (value, rest) => (some value, rest)
    else some (none, c :: cs)

/-- Reads the parts of a number after its sign. -/
def numeral? (negative : Bool) (cs : List Char) : Option (Numeral × List Char) := do
  let (integer, afterInteger) ← integer? cs
  let (fraction, afterFraction) ← fraction? afterInteger
  let (exponent, rest) ← exponent? afterFraction
  some (⟨negative, integer, fraction, exponent⟩, rest)

/-- Reads a number. -/
def number? (cs : List Char) : Option (Json × List Char) := do
  let (parts, rest) ← match cs with
    | '-' :: afterSign => numeral? true afterSign
    | _ => numeral? false cs
  if !parts.isFinite then none
  else if parts.isNatural then some (natural (digitsValue parts.integer), rest)
  else some (.numeral (String.ofList (cs.take (cs.length - rest.length))), rest)

/-! ## Values -/

mutual

/-- Reads a value. The fuel bounds how many values and separators are read one inside or after
the other. -/
def value? (fuel : Nat) (cs : List Char) : Option (Json × List Char) :=
  match fuel with
  | 0 => none
  | fuel + 1 =>
    match skipBlanks cs with
    | 'n' :: 'u' :: 'l' :: 'l' :: rest => some (null, rest)
    | 't' :: 'r' :: 'u' :: 'e' :: rest => some (bool true, rest)
    | 'f' :: 'a' :: 'l' :: 's' :: 'e' :: rest => some (bool false, rest)
    | '"' :: rest => (string? ('"' :: rest)).map fun (text, after) => (string text, after)
    | '[' :: rest =>
      match skipBlanks rest with
      | ']' :: after => some (array [], after)
      | _ => do
        let (first, afterFirst) ← value? fuel rest
        let (others, after) ← items? fuel afterFirst
        some (array (first :: others), after)
    | '\x7b' :: rest =>
      match skipBlanks rest with
      | '\x7d' :: after => some (object [], after)
      | _ => do
        let (first, afterFirst) ← field? fuel rest
        let (others, after) ← fields? fuel afterFirst
        some (object (first :: others), after)
    | other => number? other

/-- Reads the items of an array after the first, up to and including the closing bracket. -/
def items? (fuel : Nat) (cs : List Char) : Option (List Json × List Char) :=
  match fuel with
  | 0 => none
  | fuel + 1 =>
    match skipBlanks cs with
    | ']' :: after => some ([], after)
    | ',' :: rest => do
      let (item, afterItem) ← value? fuel rest
      let (others, after) ← items? fuel afterItem
      some (item :: others, after)
    | _ => none

/-- Reads a field of an object: its name, a colon and its value. -/
def field? (fuel : Nat) (cs : List Char) : Option ((String × Json) × List Char) :=
  match fuel with
  | 0 => none
  | fuel + 1 => do
    let (name, afterName) ← string? (skipBlanks cs)
    match skipBlanks afterName with
    | ':' :: rest =>
      let (value, after) ← value? fuel rest
      some ((name, value), after)
    | _ => none

/-- Reads the fields of an object after the first, up to and including the closing brace. -/
def fields? (fuel : Nat) (cs : List Char) : Option (List (String × Json) × List Char) :=
  match fuel with
  | 0 => none
  | fuel + 1 =>
    match skipBlanks cs with
    | '\x7d' :: after => some ([], after)
    | ',' :: rest => do
      let (field, afterField) ← field? fuel rest
      let (others, after) ← fields? fuel afterField
      some (field :: others, after)
    | _ => none

end

/-- Reads a text that holds one value and nothing else but white space. -/
def parse (text : String) : Option Json :=
  let cs := text.toList
  match value? (cs.length + 1) cs with
  | some (value, rest) => if (skipBlanks rest).isEmpty then some value else none
  | none => none

end ClassDiagram.Json
