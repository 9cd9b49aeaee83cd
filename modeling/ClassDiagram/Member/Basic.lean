import ClassDiagram.Member.Form
import ClassDiagram.Source.Masked
import ClassDiagram.Text.Bracket
import ClassDiagram.Text.Extent
import ClassDiagram.TypeList
import ClassDiagram.Visibility

/-!
# Members

The fields, methods and properties declared in a stretch of a source, and its *holders*: members
whose declared type may be another class of the diagram. Declarations are recognized in the
skeleton of the stretch; signatures are cut from the code. All offsets are byte offsets in the
source.
-/

namespace ClassDiagram

open Text Source

/-- A field declaration. -/
structure Field where
  offset : Nat
  visibility : Visibility
  type : String
  name : String
  /-- Modifiers, type and name, with white space normalized. -/
  signature : String
deriving DecidableEq

/-- A method declaration. -/
structure Method where
  offset : Nat
  visibility : Visibility
  name : String
  /-- From the modifiers to the clauses after the parameters, with white space normalized. -/
  signature : String
deriving DecidableEq

/-- A property declaration. -/
structure Property where
  offset : Nat
  visibility : Visibility
  type : String
  name : String
deriving DecidableEq

/-- A member that may hold an object of another class. -/
structure Holder where
  offset : Nat
  type : String
  /-- The type that the initializer constructs. -/
  constructed : Option String
deriving DecidableEq

/-- The visibility that the access keyword of a declaration gives. -/
def Member.Phrase.visibility (p : Member.Phrase) : Visibility :=
  (Visibility.ofKeyword? (String.ofList p.access)).getD .default

/-- The declarations of a form in a stretch of a skeleton, with byte offsets in the whole. -/
def Member.Form.within (form : Member.Form) (skeleton : List Char) (range : Span) :
    List (Nat × Member.Phrase) :=
  (form.occurrences (slice skeleton range)).map fun (offset, p) => (range.start + offset, p)

namespace Field

/-- The field that a declaration at `offset` declares. -/
def ofPhrase (code : List Char) (offset : Nat) (p : Member.Phrase) : Field where
  offset := offset
  visibility := p.visibility
  type := String.ofList (normalizeBlanks p.type)
  name := String.ofList p.name
  signature :=
    let start := offset + byteLength p.access
    String.ofList (normalizeBlanks (slice code ⟨start, start + byteLength p.declarator⟩))

/-- The fields declared in a stretch of a source. -/
def declared (language : Language) (source : Masked) (range : Span) : List Field :=
  ((Member.fieldForm language).within source.skeleton range).map fun (offset, p) =>
    ofPhrase source.code offset p

end Field

namespace Method

/-- Where the clauses after the parameters of a method end: at a brace, a semicolon or a double
arrow, or at the byte offset `stop`. `offset` is the byte offset of the text. -/
def clausesEnd (stop offset : Nat) : List Char → Nat
  | [] => offset
  | c :: cs =>
    if stop ≤ offset || c = '{' || c = ';' || (c = '=' && cs.head? = some '>') then offset
    else clausesEnd stop (offset + c.utf8Size) cs

/-- Where the signature of a method ends whose parameter list opens at the byte offset `opening`;
`none` if the list is never closed. The closing parenthesis is sought in the whole skeleton, the
clauses after it up to `stop`. -/
def signatureEnd? (skeleton : List Char) (stop opening : Nat) : Option Nat := do
  let close ← partner? '(' ')' opening (dropBytes opening skeleton)
  some (clausesEnd stop (close + 1) (dropBytes (close + 1) skeleton))

/-- The method that a declaration at `offset` declares in a stretch that ends at `stop`. -/
def ofPhrase? (source : Masked) (stop offset : Nat) (p : Member.Phrase) : Option Method := do
  let signatureEnd ← signatureEnd? source.skeleton stop (offset + byteLength p.text - 1)
  let signature := slice source.code ⟨offset + byteLength p.access, signatureEnd⟩
  some ⟨offset, p.visibility, String.ofList p.name, String.ofList (normalizeBlanks signature)⟩

/-- The methods declared in a stretch of a source. A constructor without modifiers is none, as
nothing in front of its name is a return type; of one with modifiers, the last of them is taken for
the return type. A declaration whose parameter list is never closed is none. -/
def declared (language : Language) (source : Masked) (range : Span) : List Method :=
  ((Member.methodForm language).within source.skeleton range).filterMap fun (offset, p) =>
    ofPhrase? source range.stop offset p

end Method

namespace Property

/-- The property that a declaration at `offset` declares. -/
def ofPhrase (offset : Nat) (p : Member.Phrase) : Property where
  offset := offset
  visibility := p.visibility
  type := String.ofList (normalizeBlanks p.type)
  name := String.ofList p.name

/-- The properties declared in a stretch of a skeleton. -/
def declared (language : Language) (skeleton : List Char) (range : Span) : List Property :=
  ((Member.propertyForm language).within skeleton range).map fun (offset, p) => ofPhrase offset p

end Property

namespace Holder

/-- The holder that a declaration at `offset` declares. -/
def ofPhrase (offset : Nat) (p : Member.Phrase) : Holder where
  offset := offset
  type := String.ofList p.type
  constructed := (p.initializer.bind TypeList.constructed?).map String.ofList

/-- The private fields of a plainly named type in a stretch of a skeleton. -/
def fields (language : Language) (skeleton : List Char) (range : Span) : List Holder :=
  ((Member.heldFieldForm language).within skeleton range).map fun (offset, p) => ofPhrase offset p

/-- The properties of a plainly named type and without accessor bodies in a stretch of a skeleton.
-/
def autoProperties (language : Language) (skeleton : List Char) (range : Span) : List Holder :=
  ((Member.autoPropertyForm language).within skeleton range).map fun (offset, p) =>
    ofPhrase offset p

end Holder

end ClassDiagram
