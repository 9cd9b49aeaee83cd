/-!
# Matching brackets

The partner of an opening bracket is found by counting: every opening bracket of the kind adds
one, every closing one takes one away, and the partner is where the count returns to zero. The
search is the same in the characters of a text and in its bytes.
-/

namespace ClassDiagram.Text

/-- Reads on with `depth` brackets open, and answers the byte offset of the closing bracket after
which none is open. `offset` is the byte offset of what is left, and `size` the number of bytes of
a character. -/
def closingFrom {α : Type} [DecidableEq α] (size : α → Nat) (opening closing : α)
    (depth offset : Nat) : List α → Option Nat
  | [] => none
  | c :: cs =>
    if c = opening then closingFrom size opening closing (depth + 1) (offset + size c) cs
    else if c = closing then
      if depth ≤ 1 then some offset
      else closingFrom size opening closing (depth - 1) (offset + size c) cs
    else closingFrom size opening closing depth (offset + size c) cs

/-- The byte offset of the partner of the bracket that stands at the head of the text, itself at
byte offset `offset`; `none` if it is never closed. -/
def partner? (opening closing : Char) (offset : Nat) (cs : List Char) : Option Nat :=
  closingFrom Char.utf8Size opening closing 0 offset cs

/-- How many more brackets of the kinds in `opening` than of those in `closing` a text has. -/
def nesting (opening closing : List Char) (cs : List Char) : Int :=
  cs.foldl (fun depth c =>
    if opening.contains c then depth + 1
    else if closing.contains c then depth - 1
    else depth) 0

end ClassDiagram.Text
