import ClassDiagram.Json.Value
import ClassDiagram.Size

/-!
# Records in JSON

How the types of this library are read from JSON values. A record is an object in which the known
fields occur at most once and unknown ones are ignored, or an array of its fields in their order.
A choice among names is a string, or an object whose single field has the name and is null.
-/

namespace ClassDiagram.Json

/-- The value of the field with a name, in an object that has it at most once. Refuses a field
that is repeated. -/
def lookup? (fields : List (String × Json)) (name : String) : Option (Option Json) :=
  match fields.filter (·.1 = name) with
  | [] => some none
  | [(_, value)] => some (some value)
  | _ => none

/-- The values of the fields of a record, in the order of `names`; a field may be missing from an
object. An array must hold all of them, except that the last `optional` may be missing. -/
def record? (names : List String) (optional : Nat) : Json → Option (List (Option Json))
  | object fields => names.mapM (lookup? fields)
  | array items =>
    if names.length ≤ items.length + optional ∧ items.length ≤ names.length then
      some (items.map some ++ List.replicate (names.length - items.length) none)
    else none
  | _ => none

/-- A text. -/
def text? : Json → Option String
  | string text => some text
  | _ => none

/-- A number of 64 bits. -/
def size? : Json → Option Size
  | natural n => if h : n < UInt64.size then some ⟨n, h⟩ else none
  | _ => none

/-- A natural number of at most 64 bits. -/
def nat? (json : Json) : Option Nat := json.size?.map Fin.val

/-- A list whose items are read by `item?`. -/
def list? {α : Type} (item? : Json → Option α) : Json → Option (List α)
  | array items => items.mapM item?
  | _ => none

/-- A value that may be null, or missing. -/
def nullable? {α : Type} (item? : Json → Option α) : Option Json → Option (Option α)
  | none | some null => some none
  | some value => (item? value).map some

/-- A choice among values with names. -/
def choice? {α : Type} (options : List α) (nameOf : α → String) : Json → Option α
  | string name => options.find? (nameOf · = name)
  | object [(name, null)] => options.find? (nameOf · = name)
  | _ => none

/-- A value, or null for none. -/
def ofOption {α : Type} (ofItem : α → Json) : Option α → Json
  | none => null
  | some value => ofItem value

end ClassDiagram.Json
