import ClassDiagram.Language

/-!
# Paths

File paths are texts whose components are separated by slashes. Empty components and single dots
name nothing of their own; a backslash is an ordinary character.
-/

namespace ClassDiagram.Path

/-- The parts of a text between separators. There is one more part than there are separators. -/
def splitAt (separator : Char) (cs : List Char) : List (List Char) :=
  cs.foldr (fun c parts =>
    if c = separator then [] :: parts
    else match parts with
      | [] => [[c]]
      | part :: rest => (c :: part) :: rest) [[]]

/-- The components of a path that name something. -/
def components (path : List Char) : List (List Char) :=
  (splitAt '/' path).filter fun part => part ≠ [] && part ≠ ['.']

/-- The name a path ends in. A path that ends in two dots, or is empty, ends in no name. -/
def fileName? (path : List Char) : Option (List Char) :=
  (components path).getLast?.bind fun name => if name = ['.', '.'] then none else some name

/-- The part of a name after its last dot. A dot at the start of a name is not counted. -/
def extensionOf? (name : List Char) : Option (List Char) :=
  let extension := (name.reverse.takeWhile (· ≠ '.')).reverse
  if extension.length + 1 < name.length then some extension else none

/-- The extension of the name a path ends in. -/
def extension? (path : List Char) : Option (List Char) := (fileName? path).bind extensionOf?

/-- The language whose files have the extension of a path, in any case. -/
def language? (path : String) : Option Language :=
  (extension? path.toList).bind fun extension =>
    match String.ofList (extension.map Char.toLower) with
    | "java" => some .java
    | "cs" => some .csharp
    | _ => none

end ClassDiagram.Path
