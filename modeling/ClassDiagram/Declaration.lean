import ClassDiagram.Language
import ClassDiagram.Source.Occurrence
import ClassDiagram.Source.Phrase
import ClassDiagram.Text.Bracket
import ClassDiagram.Text.Extent

/-!
# Type declarations

The first type declaration of a source: its keyword, its name, the header between the name and
the body, and the body between its braces. It is found in the skeleton alone.
-/

namespace ClassDiagram

open Text Source

/-- A type declaration. The spans are byte offsets in the source. -/
structure Declaration where
  keyword : String
  name : String
  /-- What stands between the name and the body: type parameters, parameters, base types. -/
  header : Span
  /-- What stands between the braces of the body; empty if there is no body. -/
  body : Span
deriving DecidableEq

namespace Declaration

/-- The words that open a declaration, and the text after them. -/
structure Opening where
  keyword : List Char
  gap : List Char
  name : List Char
  rest : List Char

/-- The text of an opening. -/
def Opening.text (o : Opening) : List Char := o.keyword ++ o.gap ++ o.name

/-- Reads a declaration keyword and the name after it. -/
def opening? (language : Language) (cs : List Char) : Option Opening := do
  let (keyword, afterKeyword) ← Reader.word language.declarationKeywords cs
  let (gap, afterGap) ← Reader.space afterKeyword
  let (name, rest) ← Reader.identifier afterGap
  some ⟨keyword, gap, name, rest⟩

/-- Where a header ends: the byte offset, and the text from the opening brace on if a body
follows. A brace or a semicolon inside parentheses does not end it; `depth` parentheses are open,
and a closing one that matches none is passed over. -/
def headerEnd (depth offset : Nat) : List Char → Nat × Option (List Char)
  | [] => (offset, none)
  | c :: cs =>
    if c = '(' then headerEnd (depth + 1) (offset + c.utf8Size) cs
    else if c = ')' then headerEnd (depth - 1) (offset + c.utf8Size) cs
    else if c = '{' && depth = 0 then (offset, some (c :: cs))
    else if c = ';' && depth = 0 then (offset, none)
    else headerEnd depth (offset + c.utf8Size) cs

/-- The header and the body of a declaration whose name ends at the byte offset `offset` of a text
of `size` bytes, with `cs` after the name. A body that is never closed reaches to the end. -/
def headerAndBody (size offset : Nat) (cs : List Char) : Span × Span :=
  match headerEnd 0 offset cs with
  | (stop, none) => (⟨offset, stop⟩, ⟨stop, stop⟩)
  | (brace, some body) =>
    (⟨offset, brace⟩, ⟨brace + 1, (partner? '{' '}' brace body).getD size⟩)

/-- The first type declaration in a skeleton. -/
def find? (language : Language) (skeleton : List Char) : Option Declaration :=
  match occurrences (opening? language) (·.text.length) skeleton with
  | [] => none
  | (offset, o) :: _ =>
    let (header, body) :=
      headerAndBody (byteLength skeleton) (offset + byteLength o.text) o.rest
    some ⟨String.ofList o.keyword, String.ofList o.name, header, body⟩

end Declaration

end ClassDiagram
