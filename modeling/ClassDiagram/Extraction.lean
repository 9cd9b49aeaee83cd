import ClassDiagram.Declaration
import ClassDiagram.Member.Basic
import ClassDiagram.Model.Record

/-!
# Extraction

The class record of a source: the first type declared in it, with the members of its body. The
mode says how much of each member is kept. Only declarations with an access keyword are members.
-/

namespace ClassDiagram

open Source

/-- How much of a member is kept. -/
inductive ExtractionMode
  /-- The type and name of an attribute, the name of a method, and every overload. -/
  | nameOnly
  /-- The visibility and the whole declaration, and the first member of each name only. -/
  | fullSignature
deriving DecidableEq

namespace ExtractionMode

/-- The name under which a mode is written and read. -/
def name : ExtractionMode → String
  | nameOnly => "name-only"
  | fullSignature => "full-signature"

/-- Every mode, in the order of listings. -/
def all : List ExtractionMode := [nameOnly, fullSignature]

/-- The mode used where none is chosen. -/
def default : ExtractionMode := fullSignature

/-- Reads the name of a mode, in any case and with white space around it. -/
def parse (text : String) : Except Failure ExtractionMode :=
  match Text.choice text with
  | "name-only" | "names" => .ok nameOnly
  | "full-signature" | "full" => .ok fullSignature
  | other => .error (.unknownMode other)

end ExtractionMode

/-- A member on its way into a record. -/
structure Signature where
  offset : Nat
  name : String
  visibility : Visibility
  text : String
deriving DecidableEq

namespace Signature

/-- A field is kept with its modifiers. -/
def ofField (field : Field) : Signature :=
  ⟨field.offset, field.name, field.visibility, field.signature⟩

/-- A property is kept as its type and its name. -/
def ofProperty (property : Property) : Signature :=
  ⟨property.offset, property.name, property.visibility, property.type ++ " " ++ property.name⟩

/-- A method is kept with its modifiers, parameters and clauses. -/
def ofMethod (method : Method) : Signature :=
  ⟨method.offset, method.name, method.visibility, method.signature⟩

/-- A signature as a record holds it: its text after its visibility marker. -/
def marked (signature : Signature) : String :=
  signature.visibility.marker.toString ++ signature.text

/-- The first signature of each name that is not among `seen`. -/
def firstOfEachName (seen : List String) : List Signature → List Signature
  | [] => []
  | signature :: rest =>
    if seen.contains signature.name then firstOfEachName seen rest
    else signature :: firstOfEachName (signature.name :: seen) rest

end Signature

namespace Extraction

/-- The attributes of a body, in the order of the source. In C# the properties are among them. -/
def attributes (language : Language) (source : Masked) (body : Text.Span) : List Signature :=
  let fields := (Field.declared language source body).map .ofField
  match language with
  | .java => fields
  | .csharp =>
    let properties := (Property.declared language source.skeleton body).map .ofProperty
    (fields ++ properties).mergeSort fun a b => a.offset ≤ b.offset

/-- The members of a body in name-only mode. -/
def nameOnly (language : Language) (source : Masked) (d : Declaration) : ClassRecord where
  name := d.name
  attributes := (Field.declared language source d.body).map fun f => f.type ++ " " ++ f.name
  methods := (Method.declared language source d.body).map fun m => m.name ++ "()"

/-- The members of a body in full-signature mode. -/
def fullSignature (language : Language) (source : Masked) (d : Declaration) : ClassRecord where
  name := d.name
  attributes := (Signature.firstOfEachName [] (attributes language source d.body)).map (·.marked)
  methods :=
    (Signature.firstOfEachName [] ((Method.declared language source d.body).map .ofMethod)).map
      (·.marked)

/-- The class record of a masked source. -/
def ofMasked (mode : ExtractionMode) (language : Language) (source : Masked) : ClassRecord :=
  match Declaration.find? language source.skeleton with
  | none => .unnamed
  | some d =>
    match mode with
    | .nameOnly => nameOnly language source d
    | .fullSignature => fullSignature language source d

end Extraction

/-- The class record of a source. It is unnamed if no type is declared. -/
def extract (mode : ExtractionMode) (language : Language) (source : List Char) : ClassRecord :=
  Extraction.ofMasked mode language (.ofSource source)

end ClassDiagram
