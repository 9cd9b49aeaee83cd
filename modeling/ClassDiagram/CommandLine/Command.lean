import ClassDiagram.CommandLine.Options
import ClassDiagram.Batch
import ClassDiagram.LogFormat
import ClassDiagram.Output.Format

/-!
# Commands

The commands of the program and how they are asked for.
-/

namespace ClassDiagram.CommandLine

/-- What an option says. -/
inductive Setting
  | verbose
  /-- The level of the log lines. It is checked, but nothing is logged. -/
  | logLevel (name : String)
  | logFormat (format : LogFormat)
  | mode (mode : ExtractionMode)
  | maxBytes (bytes : Nat)
  | output (path : String)
  | format (format : OutputFormat)
  | columns (number : Size)
  | compact
  | json

/-- The sources that a command reads, and how. -/
structure SourceChoice where
  /-- Files and directories. -/
  paths : List String
  settings : BatchSettings
deriving DecidableEq

/-- What the program is asked to do. -/
inductive Command
  /-- To draw a diagram and write it to a file, into a directory, or to the standard output. -/
  | generate (sources : SourceChoice) (output : Option String) (format : OutputFormat)
      (layout : LayoutSettings) (style : Json.Style)
  /-- To print the model. -/
  | model (sources : SourceChoice) (style : Json.Style)
  /-- To print the relationships. -/
  | relationships (sources : SourceChoice)
  /-- To list the output formats. -/
  | formats (asJson : Bool)
deriving DecidableEq

/-- A command line that is understood. -/
structure Invocation where
  verbose : Bool
  command : Command
deriving DecidableEq

/-! ## Values of options -/

/-- Reads an exact name of one of several values. -/
def readName {α : Type} (options : List α) (nameOf : α → String) (text : String) : Option α :=
  options.find? (nameOf · = text)

/-- Reads a number of at most 64 bits. It is written in decimal digits, perhaps after a plus
sign. -/
def readNumber (text : String) : Option Size :=
  let digits := match text.toList with
    | '+' :: rest => rest
    | all => all
  if digits.isEmpty || !digits.all Char.isDigit then none
  else
    let value := digits.foldl (fun n c => 10 * n + (c.toNat - '0'.toNat)) 0
    if h : value < UInt64.size then some ⟨value, h⟩ else none

/-- Reads a path, which is not empty. -/
def readPath (text : String) : Option String := if text.isEmpty then none else some text

/-- The names of the log levels. -/
def logLevels : List String := ["trace", "debug", "info", "warn", "error"]

/-! ## Options -/

/-- The options that every command has. -/
def sharedSwitches : List (Switch Setting) := [
  ⟨"verbose", some 'v', .flag .verbose⟩,
  ⟨"log-level", none, .valued fun text => (readName logLevels id text).map .logLevel⟩,
  ⟨"log-format", none, .valued fun text => (readName LogFormat.all LogFormat.name text).map
    .logFormat⟩,
  ⟨"help", some 'h', .stopping .helpWanted⟩]

/-- The options in front of a command. -/
def programSwitches : List (Switch Setting) :=
  sharedSwitches ++ [⟨"version", some 'V', .stopping .versionWanted⟩]

/-- The options of commands that read sources. -/
def sourceSwitches : List (Switch Setting) :=
  sharedSwitches ++ [
    ⟨"mode", some 'm', .valued fun text => (readName ExtractionMode.all ExtractionMode.name
      text).map .mode⟩,
    ⟨"max-bytes", none, .valued fun text => (readNumber text).map fun bytes => .maxBytes bytes⟩]

/-- The option for output on a single line. -/
def compactSwitch : Switch Setting := ⟨"compact", none, .flag .compact⟩

/-- The options of the command that draws a diagram. -/
def generateSwitches : List (Switch Setting) :=
  sourceSwitches ++ [
    compactSwitch,
    ⟨"output", some 'o', .valued fun text => (readPath text).map .output⟩,
    ⟨"format", some 'f', .valued fun text => (readName OutputFormat.all OutputFormat.name
      text).map .format⟩,
    ⟨"columns", none, .valued fun text => (readNumber text).map .columns⟩]

/-- The options of the command that prints the model. -/
def modelSwitches : List (Switch Setting) := sourceSwitches ++ [compactSwitch]

/-- The options of the command that lists the formats. -/
def formatsSwitches : List (Switch Setting) := sharedSwitches ++ [⟨"json", none, .flag .json⟩]

/-! ## Settings -/

/-- Whether the progress of the work is to be told. -/
def isVerbose (settings : List Setting) : Bool :=
  settings.any fun
    | .verbose => true
    | _ => false

/-- How JSON is to be laid out. -/
def styleOf (settings : List Setting) : Json.Style :=
  if settings.any fun
    | .compact => true
    | _ => false
  then .compact else .pretty

/-- The sources that settings and arguments choose; without arguments, the working directory. -/
def sourcesOf (settings : List Setting) (arguments : List String) : SourceChoice where
  paths := if arguments.isEmpty then ["."] else arguments
  settings := {
    mode := (settings.findSome? fun
      | .mode mode => some mode
      | _ => none).getD .default
    maxSourceBytes := (settings.findSome? fun
      | .maxBytes bytes => some bytes
      | _ => none).getD BatchSettings.default.maxSourceBytes }

/-- The diagram that settings and arguments ask for. -/
def generateOf (settings : List Setting) (arguments : List String) : Command :=
  .generate (sourcesOf settings arguments)
    (settings.findSome? fun
      | .output path => some path
      | _ => none)
    ((settings.findSome? fun
      | .format format => some format
      | _ => none).getD .default)
    { LayoutSettings.default with
      columns := (settings.findSome? fun
        | .columns number => some number
        | _ => none).getD LayoutSettings.default.columns }
    (styleOf settings)

/-- Reads the arguments of a command. `build` makes the command of its settings and arguments. -/
def readCommand (switches : List (Switch Setting)) (arguments : Arguments) (verbose : Bool)
    (args : List String) (build : List Setting → List String → Command) :
    Except Stop Invocation := do
  let (items, _) ← readItems switches arguments [] none args
  let settings := settingsOf items
  return ⟨verbose || isVerbose settings, build settings (argumentsOf items)⟩

/-- Paths of sources. An empty argument names nothing. -/
def sourcePaths : Arguments := .accepted fun path => !path.isEmpty

/-- Reads a command line. -/
def parse (args : List String) : Except Stop Invocation := do
  let (items, rest) ← readItems programSwitches .ending [] none args
  let verbose := isVerbose (settingsOf items)
  match rest with
  | "generate" :: rest => readCommand generateSwitches sourcePaths verbose rest generateOf
  | "model" :: rest =>
    readCommand modelSwitches sourcePaths verbose rest fun settings arguments =>
      .model (sourcesOf settings arguments) (styleOf settings)
  | "relationships" :: rest =>
    readCommand sourceSwitches sourcePaths verbose rest fun settings arguments =>
      .relationships (sourcesOf settings arguments)
  | "formats" :: rest =>
    readCommand formatsSwitches .none verbose rest fun settings _ =>
      .formats (settings.any fun
        | .json => true
        | _ => false)
  | ["help"] | ["help", "generate"] | ["help", "model"] | ["help", "relationships"]
  | ["help", "formats"] | ["help", "help"] => .error .helpWanted
  | _ => .error .misuse

end ClassDiagram.CommandLine
