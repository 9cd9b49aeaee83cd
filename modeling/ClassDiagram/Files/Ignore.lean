import ClassDiagram.Files.Glob
import ClassDiagram.Files.Path
import ClassDiagram.Text.Blank

/-!
# Ignore rules

The rules of ignore files. A rule is a glob for paths below the directory of its file; the last
rule that applies decides. A rule may spare what it matches instead, and it may be for directories
only. Lines that are no valid rule are passed over.
-/

namespace ClassDiagram.Ignore

/-- What rules say about a path. -/
inductive Verdict
  | ignored
  | spared
deriving DecidableEq

/-- A rule of an ignore file. -/
structure Rule where
  verdict : Verdict
  directoriesOnly : Bool
  pattern : List Glob.Token

namespace Rule

/-- The part of a line that is read: white space at its end is dropped unless it is escaped. -/
def significant (line : List Char) : List Char :=
  if line.reverse.take 2 = [' ', '\\'] then line else Text.trimEnd line

/-- The glob for whole paths below a directory that a written pattern stands for. A pattern without
a slash matches in every directory, unless it is anchored; two stars at the end match what is
inside a directory, but not the directory itself. -/
def wholePath (anchored : Bool) (pattern : List Char) : List Char :=
  let deep :=
    if anchored || pattern.contains '/' || pattern = ['*', '*'] then pattern
    else "**/".toList ++ pattern
  if deep.reverse.take 3 = ['*', '*', '/'] then deep ++ "/*".toList else deep

/-- The rule of a pattern whose marks for sparing and anchoring are already taken off. -/
def ofPattern? (verdict : Verdict) (anchored : Bool) (pattern : List Char) : Option Rule :=
  match pattern.reverse with
  | '/' :: '\\' :: stem =>
    (Glob.read? (wholePath anchored stem.reverse)).map fun tokens => ⟨verdict, true, tokens⟩
  | '/' :: stem =>
    (Glob.read? (wholePath anchored stem.reverse)).map fun tokens => ⟨verdict, true, tokens⟩
  | _ => (Glob.read? (wholePath anchored pattern)).map fun tokens => ⟨verdict, false, tokens⟩

/-- The rule of an unmarked pattern; a slash in front anchors it at the directory of its file. -/
def ofAnchored? (verdict : Verdict) : List Char → Option Rule
  | '/' :: pattern => ofPattern? verdict true pattern
  | pattern => ofPattern? verdict false pattern

/-- The rule on a line. A hash in front makes a comment, an exclamation mark spares; a backslash in
front of either makes it an ordinary character. -/
def ofLine? (line : List Char) : Option Rule :=
  match significant line with
  | [] => none
  | '\\' :: '!' :: rest => ofPattern? .ignored false ('!' :: rest)
  | '\\' :: '#' :: rest => ofPattern? .ignored false ('#' :: rest)
  | '!' :: rest => ofAnchored? .spared rest
  | pattern => if line.head? = some '#' then none else ofAnchored? .ignored pattern

end Rule

/-- The rules of an ignore file, in order. A byte order mark in front is passed over. -/
def rulesOf (text : String) : List Rule :=
  let content := match text.toList with
    | '\ufeff' :: rest => rest
    | all => all
  (Path.splitAt '\n' content).filterMap Rule.ofLine?

/-- What rules say about a path below their directory. -/
def verdict? (rules : List Rule) (path : String) (isDirectory : Bool) : Option Verdict :=
  (rules.reverse.find? fun rule =>
    (isDirectory || !rule.directoriesOnly) && Glob.isMatch rule.pattern path).map (·.verdict)

/-- The rules of one directory, as seen from a directory inside it. -/
structure Level where
  /-- The names that lead from the directory of the rules to the other one. -/
  below : List String
  /-- The rules of the general ignore file. They come before those of version control. -/
  general : List Rule
  /-- The rules that version control keeps with the sources. -/
  versioned : List Rule
  /-- The rules that version control keeps by itself. -/
  excluded : List Rule
  /-- Whether the directory is the root of a repository. Rules of version control do not reach into
  a repository from outside. -/
  isRepository : Bool

/-- The level as seen from the directory with a name one step further down. -/
def Level.enter (level : Level) (name : String) : Level :=
  { level with below := level.below ++ [name] }

/-- The path of an entry, below the directory of a level. -/
def Level.path (level : Level) (name : String) : String :=
  "/".intercalate (level.below ++ [name])

/-- The verdict of the innermost level that has one. -/
def firstVerdict? (rules : Level → List Rule) (stopsAt : Level → Bool) (name : String)
    (isDirectory : Bool) : List Level → Option Verdict
  | [] => none
  | level :: outer =>
    match verdict? (rules level) (level.path name) isDirectory with
    | some verdict => some verdict
    | none =>
      if stopsAt level then none else firstVerdict? rules stopsAt name isDirectory outer

/-- Whether an entry is left out, by the levels around it from the inside to the outside. Without a
verdict, entries whose name starts with a dot are left out. -/
def leavesOut (levels : List Level) (name : String) (isDirectory : Bool) : Bool :=
  let verdict :=
    (firstVerdict? (·.general) (fun _ => false) name isDirectory levels).or <|
      (firstVerdict? (·.versioned) (·.isRepository) name isDirectory levels).or <|
        firstVerdict? (·.excluded) (·.isRepository) name isDirectory levels
  match verdict with
  | some .ignored => true
  | some .spared => false
  | none => name.toList.head? = some '.'

end ClassDiagram.Ignore
