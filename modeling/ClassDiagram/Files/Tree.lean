import ClassDiagram.Files.Ignore
import ClassDiagram.Files.Utf8

/-!
# File trees

Files and directories as a value: what a path leads to, which sources lie below a directory, and
what happens when a file is written. A tree stands for a working directory; paths that lead out of
it lead nowhere.
-/

namespace ClassDiagram

/-- Why a file cannot be used. -/
inductive FileError
  | notFound
  | permissionDenied
  | notADirectory
  | isADirectory
deriving DecidableEq

/-- The wording of a file error. -/
def FileError.message : FileError → String
  | notFound => "No such file or directory (os error 2)"
  | permissionDenied => "Permission denied (os error 13)"
  | notADirectory => "Not a directory (os error 20)"
  | isADirectory => "Is a directory (os error 21)"

/-- A file, or a directory with its entries. -/
inductive FileTree
  | file (content : List UInt8)
  | directory (entries : List (String × FileTree))

namespace FileTree

/-- The empty directory. -/
def empty : FileTree := directory []

/-- Whether a tree is a directory. -/
def isDirectory : FileTree → Bool
  | directory _ => true
  | file _ => false

/-- The entry of a tree with a name. -/
def child? : FileTree → String → Option FileTree
  | directory entries, name => (entries.find? (·.1 = name)).map (·.2)
  | file _, _ => none

/-- What is at the end of a chain of names. -/
def at? (tree : FileTree) (names : List String) : Option FileTree :=
  names.foldl (fun t name => t.bind (·.child? name)) (some tree)

/-- Puts a tree at the end of a chain of names, and makes the directories on the way. -/
def insert (added : FileTree) : List String → FileTree → FileTree
  | [], _ => added
  | name :: names, tree =>
    let inner := insert added names ((tree.child? name).getD empty)
    match tree with
    | directory entries => directory (entries.filter (·.1 ≠ name) ++ [(name, inner)])
    | file _ => directory [(name, inner)]

/-- Makes a directory at the end of a chain of names, unless there is one. -/
def insertDirectory (names : List String) (tree : FileTree) : FileTree :=
  match tree.at? names with
  | some (directory _) => tree
  | _ => insert empty names tree

/-- The rules of the ignore file at the end of a chain of names. -/
def rulesAt (tree : FileTree) (names : List String) : List Ignore.Rule :=
  match tree.at? names with
  | some (file content) => Ignore.rulesOf (Utf8.decode content)
  | _ => []

/-- The ignore rules of a directory, as seen from inside along a chain of names. -/
def level (tree : FileTree) (below : List String) : Ignore.Level where
  below := below
  general := tree.rulesAt [".ignore"]
  versioned := tree.rulesAt [".gitignore"]
  excluded := tree.rulesAt [".git", "info", "exclude"]
  isRepository := (tree.child? ".git").isSome

/-! ## Paths -/

/-- A place in a tree: the tree there, and the directories around it from the inside to the outside,
each with the name by which the way goes on. -/
structure Place where
  here : FileTree
  around : List (String × FileTree)

/-- The names that lead to a place. -/
def Place.names (place : Place) : List String := (place.around.map (·.1)).reverse

/-- The ignore rules of the directories around a place, from the inside to the outside. -/
def Place.outerLevels (place : Place) : List Ignore.Level :=
  levelsFrom [] place.around
where
  /-- The rules of directories, when `below` leads from the first of them to the place. -/
  levelsFrom (below : List String) : List (String × FileTree) → List Ignore.Level
    | [] => []
    | (name, tree) :: further => tree.level (name :: below) :: levelsFrom (name :: below) further

/-- Goes on from a place along the parts of a path. A dot, or nothing between two slashes, stays in
a directory; two dots go back. -/
def Place.follow (place : Place) : List String → Except FileError Place
  | [] => .ok place
  | part :: parts =>
    match place.here with
    | file _ => .error .notADirectory
    | directory _ =>
      if part = "" || part = "." then place.follow parts
      else if part = ".." then
        match place.around with
        | [] => .error .notFound
        | (_, outer) :: further => Place.follow ⟨outer, further⟩ parts
      else
        match place.here.child? part with
        | none => .error .notFound
        | some inner => Place.follow ⟨inner, (part, place.here) :: place.around⟩ parts

/-- The parts of a path between its slashes. -/
def partsOf (path : String) : List String := (Path.splitAt '/' path.toList).map String.ofList

/-- The place that a path leads to. -/
def find? (tree : FileTree) (path : String) : Except FileError Place :=
  if path.toList.head? = some '/' then .error .notFound
  else Place.follow ⟨tree, []⟩ (partsOf path)

/-- The names of the file that is written under a path. Its directory must be there. A path that
leads to a directory, or ends in a slash, is not that of a file. -/
def target? (tree : FileTree) (path : String) : Except FileError (List String) := do
  let parts := partsOf path
  let names := (parts.reverse.dropWhile (· = "")).reverse
  let parent ← Place.follow ⟨tree, []⟩ names.dropLast
  if path.toList.head? = some '/' then .error .notFound
  else
    match parent.here, names.getLast? with
    | file _, _ => .error .notADirectory
    | directory _, some name =>
      if name = "." || name = ".." || names.length < parts.length then .error .isADirectory
      else
        match parent.here.child? name with
        | some (directory _) => .error .isADirectory
        | _ => .ok (parent.names ++ [name])
    | directory _, none => .error .notFound

/-! ## Sources -/

mutual

/-- The source files among the entries of a directory and below them, with the names that lead to
them. `levels` are the ignore rules of the directory and of those around it. -/
def sourcesAmong (levels : List Ignore.Level) :
    List (String × FileTree) → List (List String × List UInt8)
  | [] => []
  | (name, tree) :: further =>
    sourcesAt levels name tree ++ sourcesAmong levels further

/-- The source files at an entry of a directory and below it. -/
def sourcesAt (levels : List Ignore.Level) (name : String) :
    FileTree → List (List String × List UInt8)
  | file content =>
    if Ignore.leavesOut levels name false || (Path.language? name).isNone then []
    else [([name], content)]
  | directory entries =>
    if Ignore.leavesOut levels name true then []
    else
      let inner := level (directory entries) [] :: levels.map (·.enter name)
      (sourcesAmong inner entries).map fun (names, content) => (name :: names, content)

end

/-- The order of paths: component by component, and a path before those that go on from it. -/
def comesBefore : List String → List String → Bool
  | [], _ => true
  | _ :: _, [] => false
  | a :: as, b :: bs => if a = b then comesBefore as bs else a < b

/-- The source files below a directory, in the order of their paths. -/
def sources (outer : List Ignore.Level) : FileTree → List (List String × List UInt8)
  | file _ => []
  | directory entries =>
    (sourcesAmong (level (directory entries) [] :: outer) entries).mergeSort fun a b =>
      comesBefore a.1 b.1

end FileTree

end ClassDiagram
