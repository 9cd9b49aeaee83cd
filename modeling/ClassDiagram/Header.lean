import ClassDiagram.Source.Occurrence
import ClassDiagram.TypeList

/-!
# Base clauses of a declaration header

In Java the base types follow `extends` and `implements`; in C# they follow a colon. Offsets are
byte offsets in the header.
-/

namespace ClassDiagram

open Text Source

/-- A clause of a header that lists types. -/
structure HeaderClause where
  keyword : List Char
  /-- The byte offset of the keyword. -/
  offset : Nat
  /-- The listed types, without the white space around them. -/
  items : List (List Char)
deriving DecidableEq

namespace Header

/-- The words that end a list of types in a header. -/
def keywords : List String := ["extends", "implements", "permits", "where"]

/-- Reads a header keyword that is a whole word. -/
def keyword? (cs : List Char) : Option (List Char) := do
  let (word, rest) ← Reader.word keywords cs
  if endsWord rest then some word else none

/-- The keywords of a header that stand at nesting depth zero, with their byte offsets. -/
def topKeywords (opening closing : List Char) (header : List Char) : List (Nat × List Char) :=
  (occurrences keyword? List.length header).filter fun (offset, _) =>
    nesting opening closing (takeBytes offset header) = 0

/-- The clauses that start at the given keywords of `rest`; each ends where the next keyword
stands. Only `extends` and `implements` list base types. `shift` is added to the offsets. -/
def clausesAt (shift : Nat) (rest : List Char) : List (Nat × List Char) → List HeaderClause
  | [] => []
  | (start, word) :: further =>
    let stop := match further with
      | [] => byteLength rest
      | (next, _) :: _ => next
    let others := clausesAt shift rest further
    if word = "extends".toList || word = "implements".toList then
      ⟨word, shift + start, TypeList.split (slice rest ⟨start + byteLength word, stop⟩)⟩ :: others
    else others

/-- The base clauses of a Java header, after its type parameters. Keywords between angle brackets
belong to a type and open no clause. -/
def javaClauses (header : List Char) : List HeaderClause :=
  let rest := TypeList.afterParameters header
  clausesAt (byteLength header - byteLength rest) rest (topKeywords ['<'] ['>'] rest)

/-- The text from the first colon on that stands outside all brackets, with its byte offset.
`depth` brackets are open, and negative if more were closed than opened. -/
def colonFrom (depth : Int) (offset : Nat) : List Char → Option (Nat × List Char)
  | [] => none
  | c :: cs =>
    if c = '<' || c = '(' then colonFrom (depth + 1) (offset + c.utf8Size) cs
    else if c = '>' || c = ')' then colonFrom (depth - 1) (offset + c.utf8Size) cs
    else if c = ':' && depth = 0 then some (offset, c :: cs)
    else colonFrom depth (offset + c.utf8Size) cs

/-- The byte offset of the first `where` outside all brackets, or the end of the header. -/
def constraintsStart (header : List Char) : Nat :=
  match (topKeywords ['<', '('] ['>', ')'] header).find? (·.2 = "where".toList) with
  | some (offset, _) => offset
  | none => byteLength header

/-- The base list of a C# header: what follows the first colon, up to the constraints. A colon
that belongs to a constraint opens no base list. -/
def csharpBases (header : List Char) : Option HeaderClause := do
  let (offset, list) ← colonFrom 0 0 (takeBytes (constraintsStart header) header)
  some ⟨[':'], offset, TypeList.split list.tail⟩

end Header

end ClassDiagram
