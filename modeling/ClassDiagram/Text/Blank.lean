/-!
# White space

The white space of the Unicode standard, trimming, and the division of a text into words.
Zero-width spaces, joiners and the byte order mark are not white space.
-/

namespace ClassDiagram.Text

/-- The property `White_Space` of the Unicode standard. -/
def isBlank (c : Char) : Bool :=
  let n := c.toNat
  (9 ≤ n && n ≤ 13) || n = 0x20 || n = 0x85 || n = 0xA0 || n = 0x1680
    || (0x2000 ≤ n && n ≤ 0x200A) || n = 0x2028 || n = 0x2029 || n = 0x202F || n = 0x205F
    || n = 0x3000

/-- A text without its leading white space. -/
def trimStart (cs : List Char) : List Char := cs.dropWhile isBlank

/-- A text without its trailing white space. -/
def trimEnd (cs : List Char) : List Char := (cs.reverse.dropWhile isBlank).reverse

/-- A text without the white space around it. -/
def trim (cs : List Char) : List Char := trimEnd (trimStart cs)

/-- Splits off the leading white space, which may be empty. -/
def blanks (cs : List Char) : List Char × List Char := (cs.takeWhile isBlank, cs.dropWhile isBlank)

/-- Splits off leading white space of at least one character. -/
def blanks? : List Char → Option (List Char × List Char)
  | [] => none
  | c :: cs => if isBlank c then some (blanks (c :: cs)) else none

/-- Adds a character in front of a text divided into words. The first component is the word that
the character may still extend, and it is empty after white space. -/
def wordStep (c : Char) (divided : List Char × List (List Char)) : List Char × List (List Char) :=
  match isBlank c, divided.1 with
  | false, current => (c :: current, divided.2)
  | true, [] => divided
  | true, current => ([], current :: divided.2)

/-- The maximal runs of characters that are not white space, in order. -/
def words (cs : List Char) : List (List Char) :=
  match cs.foldr wordStep ([], []) with
  | ([], rest) => rest
  | (first, rest) => first :: rest

/-- The words of a text with a single space between neighbours. -/
def normalizeBlanks (cs : List Char) : List Char := [' '].intercalate (words cs)

/-- A choice as a person writes it: white space around it is dropped, and the capitals of ASCII are
lowered. -/
def choice (text : String) : String := String.ofList ((trim text.toList).map Char.toLower)

end ClassDiagram.Text
