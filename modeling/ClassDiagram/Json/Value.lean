/-!
# JSON values

A value keeps the fields of an object in the order in which they are written, repeated ones
included. Natural numbers are told apart from all other numbers, which are kept as written.
-/

namespace ClassDiagram

/-- A JSON value. -/
inductive Json
  | null
  | bool (value : Bool)
  /-- A number written without sign, fraction and exponent. -/
  | natural (value : Nat)
  /-- Any other number, as it is written. -/
  | numeral (text : String)
  | string (text : String)
  | array (items : List Json)
  | object (fields : List (String × Json))

end ClassDiagram
