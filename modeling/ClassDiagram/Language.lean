import ClassDiagram.Failure
import ClassDiagram.Text.Blank

/-!
# Source languages

The two languages that class diagrams are drawn from, and the keywords by which their
declarations are recognized.
-/

namespace ClassDiagram

/-- A source language. -/
inductive Language
  | java
  | csharp
deriving DecidableEq

namespace Language

/-- The name under which a language is written and read. -/
def name : Language → String
  | java => "java"
  | csharp => "csharp"

/-- Every language, in the order of listings. -/
def all : List Language := [java, csharp]

/-- The keywords that open a member declaration. -/
def accessKeywords : Language → List String
  | java => ["public", "private", "protected"]
  | csharp => ["public", "private", "protected", "internal"]

/-- The keywords that open a type declaration. -/
def declarationKeywords : Language → List String
  | java => ["class", "interface", "enum", "record"]
  | csharp => ["class", "interface", "enum", "record", "struct"]

/-- The modifiers a private field may carry and still count as holding its type. -/
def holdingModifiers : Language → List String
  | java => ["static", "final", "transient", "volatile"]
  | csharp => ["static", "readonly", "volatile"]

/-- The words that may stand between the access keyword of a member and its type, in either
language. The access keywords are among them. -/
def modifiers : List String :=
  ["static", "final", "abstract", "virtual", "override", "readonly", "async", "sealed",
    "synchronized", "transient", "volatile", "const", "new", "extern", "unsafe", "partial",
    "required", "default", "native", "strictfp", "event", "public", "private", "protected",
    "internal"]

/-- Reads the name of a language, in any case and with white space around it. -/
def parse (text : String) : Except Failure Language :=
  match Text.choice text with
  | "java" => .ok java
  | "csharp" | "c#" | "cs" => .ok csharp
  | other => .error (.unknownLanguage other)

end Language

end ClassDiagram
