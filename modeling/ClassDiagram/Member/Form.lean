import ClassDiagram.Language
import ClassDiagram.Source.Occurrence
import ClassDiagram.Source.Phrase

/-!
# Forms of member declarations

All members are declared alike: an access keyword, modifiers, a type, a name, and a tail that
tells fields, methods and properties apart. A form says what may stand in each place; recognizing
it in a skeleton is the same for all forms. Where a form can be met in several ways, the modifiers
are given back last to first, and within that the type takes as much as it can.
-/

namespace ClassDiagram.Member

open Text Source

/-- A recognized declaration, divided into its parts; they follow each other without a gap. -/
structure Phrase where
  access : List Char
  /-- From the access keyword to the type: white space, modifiers, type parameters. -/
  lead : List Char
  type : List Char
  gap : List Char
  name : List Char
  /-- What follows the name, up to the end of the declaration that the form asks for. -/
  tail : List Char
  /-- The initializer in the tail, without its equals sign. -/
  initializer : Option (List Char)
deriving DecidableEq

/-- What follows the access keyword, up to the end of the name. -/
def Phrase.declarator (p : Phrase) : List Char := p.lead ++ p.type ++ p.gap ++ p.name

/-- The text of a phrase. -/
def Phrase.text (p : Phrase) : List Char := p.access ++ p.declarator ++ p.tail

/-- What may stand in each place of a declaration. -/
structure Form where
  access : List String
  leads : Splits
  types : Splits
  /-- The tail after the name, and the initializer in it. -/
  tail : List Char → Option (List Char × Option (List Char))

/-- Reads a declaration of a form at the head of a text. -/
def Form.recognize (form : Form) (cs : List Char) : Option Phrase := do
  let (access, afterAccess) ← Reader.word form.access cs
  (form.leads afterAccess).findSome? fun (lead, afterLead) =>
    (form.types afterLead).findSome? fun (type, afterType) => do
      let (gap, afterGap) ← Reader.space afterType
      let (name, afterName) ← Reader.identifier afterGap
      let (tail, initializer) ← form.tail afterName
      some ⟨access, lead, type, gap, name, tail, initializer⟩

/-- The declarations of a form in a text, with their byte offsets. -/
def Form.occurrences (form : Form) (cs : List Char) : List (Nat × Phrase) :=
  Source.occurrences form.recognize (·.text.length) cs

/-! ## Tails -/

/-- An equals sign and everything up to the next semicolon. The semicolon must be there. -/
def initializer? : List Char → Option (List Char × List Char)
  | '=' :: cs =>
    match cs.dropWhile (· ≠ ';') with
    | ';' :: _ => some (cs.takeWhile (· ≠ ';'), cs.dropWhile (· ≠ ';'))
    | _ => none
  | _ => none

/-- The end of a field: an optional initializer and a semicolon. -/
def fieldTail (cs : List Char) : Option (List Char × Option (List Char)) :=
  let (gap, afterGap) := blanks cs
  match afterGap with
  | ';' :: _ => some (gap ++ [';'], none)
  | _ =>
    (initializer? afterGap).map fun (initializer, _) =>
      (gap ++ '=' :: initializer ++ [';'], some initializer)

/-- The start of a parameter list, with type parameters in front of it or without. -/
def methodTail (cs : List Char) : Option (List Char × Option (List Char)) :=
  (optionalArguments cs).findSome? fun (parameters, afterParameters) =>
    (Reader.sequence [.gap, .char '('] afterParameters).map fun (opening, _) =>
      (parameters ++ opening, none)

/-- The start of an accessor list, up to the keyword of its first accessor. -/
def propertyTail (access : List String) (cs : List Char) :
    Option (List Char × Option (List Char)) :=
  (Reader.sequence [.gap, .char '\x7b', .gap, fun r => some (accessWords access r),
    .word ["get", "set", "init"], .wordEnd] cs).map fun (tail, _) => (tail, none)

/-- An accessor list of a getter and a setter without bodies. -/
def autoAccessors (access : List String) : Reader :=
  .sequence [.gap, .char '\x7b', .gap, fun r => some (accessWords access r), .word ["get"], .gap,
    .char ';', .gap, fun r => some (accessWords access r), .word ["set", "init"], .gap, .char ';',
    .gap, .char '\x7d']

/-- An accessor list of a getter and a setter without bodies, and an initializer if one follows. -/
def autoPropertyTail (access : List String) (cs : List Char) :
    Option (List Char × Option (List Char)) := do
  let (accessors, afterAccessors) ← autoAccessors access cs
  let (gap, afterGap) := blanks afterAccessors
  match initializer? afterGap with
  | some (initializer, _) =>
    some (accessors ++ gap ++ '=' :: initializer ++ [';'], some initializer)
  | none => some (accessors, none)

/-! ## The five forms -/

/-- Modifiers, and then type parameters if there are any. -/
def methodLeads (modifiers : List String) : Splits := fun cs =>
  (leads modifiers cs).flatMap fun (lead, afterLead) =>
    (arguments afterLead).map (fun (parameters, afterParameters) =>
      let (gap, rest) := blanks afterParameters
      (lead ++ parameters ++ gap, rest)) ++ [(lead, afterLead)]

/-- A field: any modifiers, any type, perhaps an initializer, and a semicolon. -/
def fieldForm (language : Language) : Form where
  access := language.accessKeywords
  leads := leads Language.modifiers
  types := types
  tail := fieldTail

/-- A method: any modifiers, any return type, and an opening parenthesis after the name. -/
def methodForm (language : Language) : Form where
  access := language.accessKeywords
  leads := methodLeads Language.modifiers
  types := types
  tail := methodTail

/-- A property: any modifiers, any type, and a body that starts with an accessor. -/
def propertyForm (language : Language) : Form where
  access := language.accessKeywords
  leads := leads Language.modifiers
  types := types
  tail := propertyTail language.accessKeywords

/-- A private field that holds a plainly named type. -/
def heldFieldForm (language : Language) : Form where
  access := ["private"]
  leads := leads language.holdingModifiers
  types := bareTypes
  tail := fieldTail

/-- A property that holds a plainly named type and whose accessors have no bodies. -/
def autoPropertyForm (language : Language) : Form where
  access := language.accessKeywords
  leads := leads Language.modifiers
  types := bareTypes
  tail := autoPropertyTail language.accessKeywords

end ClassDiagram.Member
