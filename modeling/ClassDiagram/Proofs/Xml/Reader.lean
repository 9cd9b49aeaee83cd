import ClassDiagram.Output.Xml
import ClassDiagram.Source.Phrase

/-!
# Reading XML

Reads the text of a document back into its element. A document has a declaration, and after it
start tags, end tags and tags of empty elements with nothing but white space between them. Values
of attributes stand in double quotes; in them the five named entities and decimal references stand
for characters, and white space of every kind reads as a space. What else XML has is refused.

A scanner goes through the text character by character and gives the tags, from which a builder
makes elements with a stack. Neither knows how a document is printed.
-/

namespace ClassDiagram.Xml

/-! ## Characters -/

/-- The white space of a document. -/
def isSpace (c : Char) : Bool := c = ' ' || c = '\t' || c = '\n' || c = '\r'

/-- Whether a name may start with a character. -/
def startsName (c : Char) : Bool := c.isAlpha || c = '_' || c = ':'

/-- Whether a name that has started may go on with a character. -/
def continuesName (c : Char) : Bool := startsName c || c.isDigit || c = '-' || c = '.'

/-- Whether a text is the name of an element or an attribute. -/
def isName : List Char → Bool
  | [] => false
  | c :: rest => startsName c && rest.all continuesName

/-- The number that decimal digits stand for. -/
def decimal? (digits : List Char) : Option Nat :=
  if digits ≠ [] ∧ digits.all Char.isDigit then some (Nat.ofDigitChars 10 digits 0) else none

/-- The character that a reference stands for, which is written between `&` and `;`. -/
def referenced? : List Char → Option Char
  | ['a', 'm', 'p'] => some '&'
  | ['l', 't'] => some '<'
  | ['g', 't'] => some '>'
  | ['q', 'u', 'o', 't'] => some '"'
  | ['a', 'p', 'o', 's'] => some '\''
  | '#' :: digits =>
    (decimal? digits).bind fun n => if n.isValidChar then some (Char.ofNat n) else none
  | _ => none

/-! ## The scanner -/

/-- A tag with the values of its attributes. -/
inductive Tag
  | start (name : String) (attributes : List (String × String))
  | empty (name : String) (attributes : List (String × String))
  | stop (name : String)

/-- What is read of a start tag or of the tag of an empty element. -/
structure StartTag where
  name : List Char
  attributes : List (String × String)

/-- Where the scanner stands. -/
inductive Place
  /-- Between two tags. -/
  | between
  /-- Behind the `<` of a tag. -/
  | opened
  /-- In the name of a start tag. -/
  | naming (name : List Char)
  /-- In a start tag, behind white space. -/
  | inside (tag : StartTag)
  /-- In the name of an attribute. -/
  | key (tag : StartTag) (name : List Char)
  /-- Behind the `=` of an attribute. -/
  | equals (tag : StartTag) (name : List Char)
  /-- In the value of an attribute. -/
  | value (tag : StartTag) (name text : List Char)
  /-- In a reference of a value. -/
  | reference (tag : StartTag) (name text reference : List Char)
  /-- Behind the value of an attribute. -/
  | valued (tag : StartTag)
  /-- Behind the `/` of the tag of an empty element. -/
  | ending (tag : StartTag)
  /-- In the name of an end tag. -/
  | stopping (name : List Char)

namespace StartTag

/-- The tag with one more attribute; an attribute is not given twice. -/
def add? (tag : StartTag) (name text : List Char) : Option StartTag :=
  if tag.attributes.any (·.1 = String.ofList name) then none
  else some ⟨tag.name, tag.attributes ++ [(String.ofList name, String.ofList text)]⟩

/-- What may stand behind the name and behind each attribute of a tag. -/
def behind (tag : StartTag) (c : Char) : Option (Place × Option Tag) :=
  if isSpace c then some (.inside tag, none)
  else if c = '/' then some (.ending tag, none)
  else if c = '>' then some (.between, some (.start (String.ofList tag.name) tag.attributes))
  else none

end StartTag

/-- What a character does at a place: the scanner moves on, and a tag may be complete. -/
def Place.step : Place → Char → Option (Place × Option Tag)
  | between, c =>
    if isSpace c then some (between, none) else if c = '<' then some (opened, none) else none
  | opened, c =>
    if c = '/' then some (stopping [], none)
    else if startsName c then some (naming [c], none)
    else none
  | naming name, c =>
    if continuesName c then some (naming (name ++ [c]), none)
    else StartTag.behind ⟨name, []⟩ c
  | inside tag, c =>
    if startsName c then some (key tag [c], none) else tag.behind c
  | key tag name, c =>
    if continuesName c then some (key tag (name ++ [c]), none)
    else if c = '=' then some (equals tag name, none)
    else none
  | equals tag name, c => if c = '"' then some (value tag name [], none) else none
  | value tag name text, c =>
    if c = '"' then (tag.add? name text).map fun tag => (valued tag, none)
    else if c = '&' then some (reference tag name text [], none)
    else if c = '<' then none
    else some (value tag name (text ++ [if isSpace c then ' ' else c]), none)
  | reference tag name text letters, c =>
    if c = ';' then (referenced? letters).map fun d => (value tag name (text ++ [d]), none)
    else some (reference tag name text (letters ++ [c]), none)
  | valued tag, c => tag.behind c
  | ending tag, c =>
    if c = '>' then some (between, some (.empty (String.ofList tag.name) tag.attributes))
    else none
  | stopping name, c =>
    if continuesName c then some (stopping (name ++ [c]), none)
    else if c = '>' then some (between, some (.stop (String.ofList name)))
    else none

/-- The tags of a text that is read from a place on. It has to end between two tags. -/
def scan : Place → List Char → Option (List Tag)
  | .between, [] => some []
  | _, [] => none
  | place, c :: rest =>
    (place.step c).bind fun (next, tag?) => (scan next rest).map (tag?.toList ++ ·)

/-! ## The builder -/

/-- An element whose end tag is still to come. -/
structure Frame where
  name : String
  attributes : List (String × String)
  /-- The elements in front of it, inside of the same element. -/
  before : List Element

/-- What the tags so far have given: the open elements, the innermost one first, and the elements
that are complete in the innermost one. -/
structure Builder where
  frames : List Frame
  elements : List Element

/-- What a tag adds. An end tag has to fit the innermost open element. -/
def Builder.step (builder : Builder) : Tag → Option Builder
  | .start name attributes => some ⟨⟨name, attributes, builder.elements⟩ :: builder.frames, []⟩
  | .empty name attributes =>
    some ⟨builder.frames, builder.elements ++ [.node name attributes []]⟩
  | .stop name =>
    match builder.frames with
    | [] => none
    | frame :: frames =>
      if frame.name = name then
        some ⟨frames, frame.before ++ [.node name frame.attributes builder.elements]⟩
      else none

/-- The declaration of a document. -/
def declaration : List Char := "<?xml version=\"1.0\" encoding=\"UTF-8\"?>".toList

/-- The element of a document. -/
def read (text : List Char) : Option Element := do
  let body ← Source.after? declaration text
  let tags ← scan .between body
  match ← tags.foldlM Builder.step ⟨[], []⟩ with
  | ⟨[], [root]⟩ => some root
  | _ => none

end ClassDiagram.Xml
