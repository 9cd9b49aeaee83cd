import ClassDiagram.Text.Word

/-!
# Occurrences

The occurrences of a phrase in a text: from left to right, each as early as possible, and none
inside another. A phrase starts at the beginning of a word.
-/

namespace ClassDiagram.Source

open Text

/-- The occurrences in a text that comes after the character `before`, at the byte offset
`offset`, when its first `inside` characters still belong to an earlier occurrence. `recognize`
reads a phrase at the head of a text, and `size` is the number of characters of a phrase. -/
def occurrencesFrom {α : Type} (recognize : List Char → Option α) (size : α → Nat)
    (inside : Nat) (before : Option Char) (offset : Nat) : List Char → List (Nat × α)
  | [] => []
  | c :: cs =>
    match inside with
    | further + 1 => occurrencesFrom recognize size further (some c) (offset + c.utf8Size) cs
    | 0 =>
      match if startsWord before then recognize (c :: cs) else none with
      | none => occurrencesFrom recognize size 0 (some c) (offset + c.utf8Size) cs
      | some phrase =>
        (offset, phrase) ::
          occurrencesFrom recognize size (size phrase - 1) (some c) (offset + c.utf8Size) cs

/-- The occurrences of a phrase in a text, each with its byte offset. -/
def occurrences {α : Type} (recognize : List Char → Option α) (size : α → Nat)
    (cs : List Char) : List (Nat × α) :=
  occurrencesFrom recognize size 0 none 0 cs

end ClassDiagram.Source
