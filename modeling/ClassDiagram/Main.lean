import ClassDiagram.CommandLine.Run

/-!
# The program

Reads what the paths of a command line lead to, asks for the answer, and carries it out: prints
the texts, writes the file, and ends with the exit code. Nothing is decided here.
-/

open ClassDiagram ClassDiagram.CommandLine

/-- The tree that a path leads to on disk. Entries that are neither files nor directories are left
out. -/
partial def readTree (path : String) : IO FileTree := do
  let place := (← IO.currentDir) / path
  if ← place.isDir then
    let mut entries := []
    for entry in ← place.readDir do
      let kind := (← entry.path.metadata).type
      if kind matches .file | .dir then
        entries := (entry.fileName, ← readTree (path ++ "/" ++ entry.fileName)) :: entries
    return .directory entries
  else
    return .file (← IO.FS.readBinFile place).toList

/-- The part of a directory on disk that holds ignore rules. -/
def readRules (path : String) : IO FileTree := do
  let mut tree := FileTree.empty
  if ← ((← IO.currentDir) / path / ".git").pathExists then
    tree := tree.insertDirectory [".git"]
  for names in [[".ignore"], [".gitignore"], [".git", "info", "exclude"]] do
    let file := (← IO.currentDir) / path / "/".intercalate names
    if ← file.pathExists then
      if !(← file.isDir) then
        tree := .insert (.file (← IO.FS.readBinFile file).toList) names tree
  return tree

/-- The ignore rules of the directories around a path on disk, from the inside to the outside. The
names in `below` lead from the first of them to the path; `parts` are the parts of the absolute
path in reverse. -/
def readLevels (below : List String) : List String → IO (List Ignore.Level)
  | [] => return []
  | part :: outer => do
    let tree ← readRules ("/" ++ "/".intercalate outer.reverse)
    return tree.level (part :: below) :: (← readLevels (part :: below) outer)

/-- Why a file could not be used. The number of an error may be given with a minus sign. -/
def faultOf : IO.Error → FileError
  | .inappropriateType _ number _ =>
    if number = 21 || number = 0 - 21 then .isADirectory else .notADirectory
  | .permissionDenied .. => .permissionDenied
  | _ => .notFound

/-- What a path leads to on disk. -/
def readRoot (path : String) : IO Root := do
  try
    let tree ← readTree path
    let parts := (← IO.FS.realPath path).toString.splitOn "/" |>.filter (· ≠ "")
    return ⟨path, .ok tree, ← readLevels [] parts.reverse⟩
  catch error =>
    return ⟨path, .error (faultOf error), []⟩

/-- Writes a file, and says why it could not be written. -/
def writeText (path text : String) : IO (Except FileError Unit) := do
  try
    IO.FS.writeFile path text
    return .ok ()
  catch error => return .error (faultOf error)

/-- Prints an answer and gives its exit code. -/
def finish (response : Response) : IO UInt32 := do
  for message in response.messages do
    IO.eprintln message
  IO.print response.output
  return response.exitCode.toUInt32

/-- The program. -/
def main (args : List String) : IO UInt32 := do
  match parse args with
  | .error stop => finish (respondStop stop)
  | .ok invocation =>
    let roots ← invocation.paths.mapM readRoot
    let outputIsDirectory ← match invocation.output? with
      | none => pure false
      | some path => ((← IO.currentDir) / path).isDir
    let response :=
      respond (← IO.getEnv "CLASSMAP_LOG_FORMAT") invocation roots outputIsDirectory
    match response.file with
    | none => finish response
    | some (path, text) => finish (response.afterWriting path (← writeText path text))
