import ClassDiagram.CommandLine.Command
import ClassDiagram.Files.Tree
import ClassDiagram.Json.Model

/-!
# Running commands

What the program answers to a command, as a function of what its paths lead to: the texts for the
standard output and the standard error, the exit code, and at most one file to write. The file is
written by the caller, who reports back whether that succeeded.
-/

namespace ClassDiagram.CommandLine

/-- The version of the program. -/
def version : String := "0.1.0"

/-- What a path given on the command line leads to. -/
structure Root where
  path : String
  found : Except FileError FileTree
  /-- The ignore rules of the directories around it, from the inside to the outside. -/
  outer : List Ignore.Level

/-- What the program answers. -/
structure Response where
  exitCode : Nat
  output : String
  /-- The lines for the standard error. -/
  messages : List String
  /-- A file to write: its path and its text. -/
  file : Option (String × String)
deriving DecidableEq

/-! ## Sources -/

/-- A path that goes on with names. -/
def joinPath (path : String) (names : List String) : String :=
  if path.toList.getLast? = some '/' then path ++ "/".intercalate names
  else path ++ "/" ++ "/".intercalate names

/-- A source file with a path and some content. -/
def loaded (path : String) (content : List UInt8) : SourceFile :=
  ⟨path, .loaded (Utf8.decode content), none⟩

/-- The source files of a root: those below a directory, or whatever else is named. -/
def Root.files (root : Root) : List SourceFile :=
  match root.found with
  | .error error => [⟨root.path, .unavailable error.message, none⟩]
  | .ok (.file content) => [loaded root.path content]
  | .ok (.directory entries) =>
    (FileTree.sources root.outer (.directory entries)).map fun (names, content) =>
      loaded (joinPath root.path names) content

/-! ## Responses -/

/-- An answer that ends well. -/
def Response.success (output : String) (messages : List String) : Response :=
  ⟨0, output, messages, none⟩

/-- An answer that ends with an error. -/
def Response.failure (text : String) (messages : List String) : Response :=
  ⟨1, "", messages ++ ["Error: " ++ text], none⟩

/-- A text as it is printed: its last line is ended. -/
def printed (text : String) : String :=
  if text.isEmpty || text.toList.getLast? = some '\n' then text else text ++ "\n"

/-- A message that is given only in a verbose run. -/
def progress (verbose : Bool) (text : String) : List String := if verbose then [text] else []

/-- The assembly of the sources of a command, and what is told about it. After a failure, what was
told before it. -/
def assembleRoots (verbose : Bool) (settings : BatchSettings) (roots : List Root) :
    Except (Failure × List String) (Assembly × List String) :=
  let files := roots.flatMap (·.files)
  let told := progress verbose ("Read " ++ toString files.length ++ " source file(s)")
  match assemble settings files with
  | .error failure => .error (failure, told)
  | .ok assembly =>
    .ok (assembly, told ++ assembly.warnings.map ("Warning: " ++ ·.message)
      ++ progress verbose ("Recognized " ++ toString assembly.model.classes.size
        ++ " class(es) and " ++ toString assembly.model.relationships.size ++ " relationship(s)"))

/-- Answers with a text made of the assembly of some sources. -/
def answerWith (verbose : Bool) (sources : SourceChoice) (roots : List Root)
    (make : Assembly → List String → Response) : Response :=
  match assembleRoots verbose sources.settings roots with
  | .error (failure, told) => .failure failure.message told
  | .ok (assembly, told) => make assembly told

/-- The file that output goes to; none for the standard output. In a directory the file is named
after the first class. -/
def outputTarget (isDirectory : Bool) (assembly : Assembly) (format : OutputFormat) :
    Option String → Option String
  | none => none
  | some path =>
    if path = "-" then none
    else if isDirectory then
      let stem := assembly.firstClass?.getD "class"
      some (joinPath path [stem ++ "_diagram." ++ format.extension])
    else some path

/-- Writes a diagram. -/
def respondGenerate (verbose : Bool) (output : Option String) (outputIsDirectory : Bool)
    (format : OutputFormat) (layout : LayoutSettings) (style : Json.Style) (assembly : Assembly)
    (told : List String) : Response :=
  match generate layout format style assembly.model with
  | .error failure => .failure failure.message told
  | .ok text =>
    let writing := fun place => told ++
      progress verbose ("Writing " ++ format.name ++ " output to " ++ place)
    match outputTarget outputIsDirectory assembly format output with
    | none => .success (printed text) (writing "stdout")
    | some path => ⟨0, "", writing path, some (path, text)⟩

/-- A line of the list of formats, with the names padded to eight columns. -/
def formatLine (format : OutputFormat) : String :=
  "  " ++ format.name ++ String.ofList (List.replicate (8 - format.name.length) ' ') ++ " - "
    ++ format.description ++ "\n"

/-- The list of formats. -/
def formatList : String :=
  "Supported output formats:\n" ++ String.join (OutputFormat.all.map formatLine) ++ "\n"
    ++ "Total: " ++ toString OutputFormat.all.length ++ " output formats supported\n"

/-- The list of formats in JSON, with the fields in alphabetical order. -/
def formatJson : Json := .object [
  ("formats", .array (OutputFormat.all.map fun format => .object [
    ("description", .string format.description),
    ("extension", .string format.extension),
    ("name", .string format.name)])),
  ("total", .natural OutputFormat.all.length)]

/-- The answer to a command whose paths lead to `roots`. -/
def respondTo (invocation : Invocation) (roots : List Root) (outputIsDirectory : Bool) :
    Response :=
  let verbose := invocation.verbose
  match invocation.command with
  | .generate sources output format layout style =>
    answerWith verbose sources roots
      (respondGenerate verbose output outputIsDirectory format layout style)
  | .model sources style =>
    answerWith verbose sources roots fun assembly told =>
      .success (printed (assembly.model.toJson.render style)) told
  | .relationships sources =>
    answerWith verbose sources roots fun assembly told =>
      match generate .default .summary .pretty assembly.model with
      | .error failure => .failure failure.message told
      | .ok text => .success (printed text) told
  | .formats asJson =>
    .success (if asJson then formatJson.render .pretty ++ "\n" else formatList)
      (progress verbose "Listing supported output formats")

/-- What is told about the log format that the environment asks for. -/
def logWarnings (logFormat : Option String) : List String :=
  match logFormat.map LogFormat.parse with
  | some (.error failure) => ["Warning: Failed to initialize logging: " ++ failure.message]
  | _ => []

/-- The answer to a command line that is understood. `logFormat` is the log format that the
environment asks for, if it does. -/
def respond (logFormat : Option String) (invocation : Invocation) (roots : List Root)
    (outputIsDirectory : Bool) : Response :=
  let response := respondTo invocation roots outputIsDirectory
  { response with
    messages := logWarnings logFormat
      ++ progress invocation.verbose ("Classmap v" ++ version) ++ response.messages }

/-- What is printed about the use of the program. -/
def usage : String :=
  "Usage: classmap [OPTIONS] <COMMAND>\n\nCommands:\n"
    ++ "  generate       Generate a class diagram\n"
    ++ "  model          Print the structural model as JSON\n"
    ++ "  relationships  List the relationships found between classes\n"
    ++ "  formats        Show supported output formats\n"

/-- The answer to a command line that is not carried out. -/
def respondStop : Stop → Response
  | .misuse => ⟨2, "", [usage], none⟩
  | .helpWanted => .success usage []
  | .versionWanted => .success ("classmap " ++ version ++ "\n") []

/-- The answer after the file was written, or could not be. -/
def Response.afterWriting (response : Response) (path : String) :
    Except FileError Unit → Response
  | .ok _ => response
  | .error error =>
    .failure ("Failed to write output file '" ++ path ++ "': " ++ error.message)
      response.messages

/-! ## Paths of an invocation -/

/-- The paths of the sources of a command. -/
def Invocation.paths (invocation : Invocation) : List String :=
  match invocation.command with
  | .generate sources .. | .model sources _ | .relationships sources => sources.paths
  | .formats _ => []

/-- The path that a command is to write to. -/
def Invocation.output? (invocation : Invocation) : Option String :=
  match invocation.command with
  | .generate _ output .. => output
  | _ => none

/-! ## Running in a file tree -/

/-- What a path leads to in a tree. -/
def rootIn (tree : FileTree) (path : String) : Root :=
  match tree.find? path with
  | .error error => ⟨path, .error error, []⟩
  | .ok place => ⟨path, .ok place.here, place.outerLevels⟩

/-- Whether a path leads to a directory of a tree. -/
def isDirectoryIn (tree : FileTree) (path : String) : Bool :=
  match tree.find? path with
  | .ok place => place.here.isDirectory
  | .error _ => false

/-- Runs a command line in a tree: the answer, and the file that is written, by the names that lead
to it. -/
def runIn (tree : FileTree) (logFormat : Option String) (args : List String) :
    Response × Option (List String × String) :=
  match parse args with
  | .error stop => (respondStop stop, none)
  | .ok invocation =>
    let response := respond logFormat invocation (invocation.paths.map (rootIn tree))
      (invocation.output?.any (isDirectoryIn tree))
    match response.file with
    | none => (response, none)
    | some (path, text) =>
      match tree.target? path with
      | .ok names => (response.afterWriting path (.ok ()), some (names, text))
      | .error error => (response.afterWriting path (.error error), none)

end ClassDiagram.CommandLine
