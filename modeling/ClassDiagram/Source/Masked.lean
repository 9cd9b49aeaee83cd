import ClassDiagram.Source.Layer

/-!
# Masked sources

A source is read twice over: in its *code*, where comments are blanked, and in its *skeleton*,
where the contents of literals are blanked too. A blanked character leaves as many spaces as it
has UTF-8 bytes, and a line break stays, so both copies have the byte offsets of the source.
Structure is found in the skeleton; the words shown to the reader are cut from the code.
-/

namespace ClassDiagram.Source

/-- What stands for a blanked character: a line break itself, otherwise one space per byte. -/
def blank (c : Char) : List Char :=
  if c = '\n' then ['\n'] else List.replicate c.utf8Size ' '

/-- What the code shows of a layered character. -/
def inCode : Char × Layer → List Char
  | (c, .comment) => blank c
  | (c, _) => [c]

/-- What the skeleton shows of a layered character. -/
def inSkeleton : Char × Layer → List Char
  | (c, .program) => [c]
  | (c, _) => blank c

/-- A source with its comments and its literals masked. -/
structure Masked where
  /-- The source without comments. -/
  code : List Char
  /-- The source without comments and without the contents of literals. -/
  skeleton : List Char
deriving DecidableEq

/-- Masks a source. -/
def Masked.ofSource (source : List Char) : Masked where
  code := (layers source).flatMap inCode
  skeleton := (layers source).flatMap inSkeleton

end ClassDiagram.Source
