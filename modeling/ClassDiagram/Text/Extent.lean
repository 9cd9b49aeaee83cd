/-!
# Extents in a text

Offsets into a text are counted in UTF-8 bytes, while a text itself is a list of characters.
This module measures texts and cuts them at byte offsets. A cut at an offset inside a character
takes effect after that character; offsets found by reading the text never fall there.
-/

namespace ClassDiagram.Text

/-- A stretch of a text from the byte offset `start` up to, and excluding, `stop`. -/
structure Span where
  start : Nat
  stop : Nat
deriving DecidableEq

/-- The number of UTF-8 bytes of a text. -/
def byteLength (cs : List Char) : Nat := cs.foldr (fun c n => c.utf8Size + n) 0

/-- `counted` plus the number of leading characters needed to fill `bytes` bytes. -/
def charCount (bytes counted : Nat) : List Char → Nat
  | [] => counted
  | c :: cs => if bytes = 0 then counted else charCount (bytes - c.utf8Size) (counted + 1) cs

/-- The text from the byte offset `bytes` on. -/
def dropBytes (bytes : Nat) (cs : List Char) : List Char := cs.drop (charCount bytes 0 cs)

/-- The first `bytes` bytes of a text. -/
def takeBytes (bytes : Nat) (cs : List Char) : List Char := cs.take (charCount bytes 0 cs)

/-- The stretch of `cs` that `span` covers. -/
def slice (cs : List Char) (span : Span) : List Char :=
  takeBytes (span.stop - span.start) (dropBytes span.start cs)

/-- The span of a whole text. -/
def whole (cs : List Char) : Span := ⟨0, byteLength cs⟩

end ClassDiagram.Text
