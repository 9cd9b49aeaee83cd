import ClassDiagram.Json.Value

/-!
# Writing JSON

Values are written on one line, or with one element to a line and an indentation of two spaces
for each level. Strings escape the quote, the backslash and the control characters below the
space; every other character is written as it is.
-/

namespace ClassDiagram.Json

/-- The digit of a hexadecimal numeral, in lower case. -/
def hexDigit (n : Nat) : Char := if n < 10 then Char.ofNat (48 + n) else Char.ofNat (87 + n)

/-- A character as it is written in a string. -/
def escapeChar (c : Char) : List Char :=
  match c with
  | '"' => ['\\', '"']
  | '\\' => ['\\', '\\']
  | '\x08' => ['\\', 'b']
  | '\x0c' => ['\\', 'f']
  | '\n' => ['\\', 'n']
  | '\r' => ['\\', 'r']
  | '\t' => ['\\', 't']
  | _ =>
    if c.toNat < 32 then
      ['\\', 'u', '0', '0', hexDigit (c.toNat / 16), hexDigit (c.toNat % 16)]
    else [c]

/-- A text as a JSON string. -/
def quote (text : List Char) : List Char := '"' :: text.flatMap escapeChar ++ ['"']

/-- How a value is laid out. -/
inductive Style
  | compact
  | pretty
deriving DecidableEq

/-- What stands between two parts of a value at a depth. -/
def Style.lineBreak : Style → Nat → List Char
  | compact, _ => []
  | pretty, depth => '\n' :: List.replicate (2 * depth) ' '

/-- What stands between the name and the value of a field. -/
def Style.colon : Style → List Char
  | compact => [':']
  | pretty => [':', ' ']

mutual

/-- The text of a value that stands at a depth. -/
def print (style : Style) (depth : Nat) : Json → List Char
  | null => ['n', 'u', 'l', 'l']
  | bool true => ['t', 'r', 'u', 'e']
  | bool false => ['f', 'a', 'l', 's', 'e']
  | natural n => Nat.toDigits 10 n
  | numeral text => text.toList
  | string text => quote text.toList
  | array [] => ['[', ']']
  | array (first :: rest) =>
    '[' :: style.lineBreak (depth + 1) ++ print style (depth + 1) first
      ++ printItems style (depth + 1) rest ++ style.lineBreak depth ++ [']']
  | object [] => ['\x7b', '\x7d']
  | object ((name, value) :: rest) =>
    '\x7b' :: style.lineBreak (depth + 1) ++ quote name.toList ++ style.colon
      ++ print style (depth + 1) value ++ printFields style (depth + 1) rest
      ++ style.lineBreak depth ++ ['\x7d']

/-- The text of the items of an array after the first. -/
def printItems (style : Style) (depth : Nat) : List Json → List Char
  | [] => []
  | item :: rest =>
    ',' :: style.lineBreak depth ++ print style depth item ++ printItems style depth rest

/-- The text of the fields of an object after the first. -/
def printFields (style : Style) (depth : Nat) : List (String × Json) → List Char
  | [] => []
  | (name, value) :: rest =>
    ',' :: style.lineBreak depth ++ quote name.toList ++ style.colon ++ print style depth value
      ++ printFields style depth rest

end

/-- The text of a value. -/
def render (style : Style) (value : Json) : String := String.ofList (print style 0 value)

end ClassDiagram.Json
