import ClassDiagram.Source.Phrase
import ClassDiagram.Text.Bracket
import ClassDiagram.Text.Extent

/-!
# Types in clauses and initializers

Lists of types separated by commas, the simple name of a type, the type parameters at the head of
a declaration header, and the type that an initializer constructs.
-/

namespace ClassDiagram.TypeList

open Text Source

/-- Divides a text at the commas that stand outside all brackets. `depth` brackets are open, a
closing one that matches none is passed over, and `current` holds the part that has begun, in
reverse. -/
def divideFrom (depth : Nat) (current : List Char) : List Char → List (List Char)
  | [] => [current.reverse]
  | c :: cs =>
    if c = '<' || c = '(' then divideFrom (depth + 1) (c :: current) cs
    else if c = '>' || c = ')' then divideFrom (depth - 1) (c :: current) cs
    else if c = ',' && depth = 0 then current.reverse :: divideFrom 0 [] cs
    else divideFrom depth (c :: current) cs

/-- The entries of a list of types. Commas inside angle brackets or parentheses separate nothing,
and empty entries are left out. -/
def split (list : List Char) : List (List Char) :=
  ((divideFrom 0 [] list).map trim).filter (!·.isEmpty)

/-- The part of a text after its last dot. -/
def lastSegment (cs : List Char) : List Char := (cs.reverse.takeWhile (· ≠ '.')).reverse

/-- The name of a type without its qualifiers and without arguments, array brackets and the like.
-/
def simpleName (type : List Char) : List Char :=
  let endsName := fun c => c = '<' || c = '(' || c = '[' || c = '?'
  trim (lastSegment (trim ((trim type).takeWhile (!endsName ·))))

/-- The part of a header after the type parameters it starts with, if it starts with any. Nothing
is left of a header whose type parameters are never closed. -/
def afterParameters (header : List Char) : List Char :=
  match trimStart header with
  | '<' :: cs =>
    match partner? '<' '>' 0 ('<' :: cs) with
    | some close => (dropBytes (close + 1) ('<' :: cs))
    | none => []
  | trimmed => trimmed

/-- Whether a text has the form of arguments in a construction: angle brackets around anything but
an opening parenthesis, with white space around them, or white space alone. -/
def areArguments (cs : List Char) : Bool :=
  match trim cs with
  | [] => true
  | '<' :: rest => rest.getLast? = some '>'
  | _ => false

/-- The simple name of the type that an initializer constructs with `new`. Equals signs in front
of the construction are passed over. -/
def constructed? (initializer : List Char) : Option (List Char) := do
  let expression := (trimStart initializer).dropWhile (· = '=')
  let (_, afterNew) ← Reader.sequence [.gap, .word ["new"], .space] expression
  let (type, afterType) ← Reader.qualified afterNew
  match afterType.dropWhile (· ≠ '(') with
  | [] => none
  | _ :: _ => if areArguments (afterType.takeWhile (· ≠ '(')) then some (simpleName type) else none

end ClassDiagram.TypeList
