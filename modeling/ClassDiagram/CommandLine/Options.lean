/-!
# Options

Command lines in the usual notation: `--name value`, `--name=value`, `-n value`, `-nvalue`,
`-n=value`, flags joined behind one dash, and two dashes after which nothing is an option. An
option is given at most once. Arguments are read from left to right, and the first one that stops
the reading decides why.
-/

namespace ClassDiagram.CommandLine

/-- Why a command line is not carried out. -/
inductive Stop
  | misuse
  | helpWanted
  | versionWanted
deriving DecidableEq

/-- What an option means: a flag means something by itself, a valued option gives a meaning to its
value or refuses it, and a stopping one ends the reading. -/
inductive Meaning (α : Type)
  | flag (setting : α)
  | valued (read : String → Option α)
  | stopping (reason : Stop)

/-- An option of a command line. -/
structure Switch (α : Type) where
  long : String
  short : Option Char
  meaning : Meaning α

/-- What a command line is found to hold. A setting comes with the name of its option. -/
inductive Item (α : Type)
  | setting (name : String) (value : α)
  | argument (text : String)
  | stop (reason : Stop)

/-- An option that is still without its value, which is then the next argument. -/
abbrev Waiting (α : Type) := Option (Switch α × (String → Option α))

/-- What arguments do that are no options. -/
inductive Arguments
  /-- The first of them ends the reading. -/
  | ending
  /-- They are read, and refused unless they pass. -/
  | accepted (passes : String → Bool)

/-- No arguments are accepted. -/
def Arguments.none : Arguments := accepted fun _ => false

/-- Whether an argument would be read as an option. A single dash would not. -/
def isOptionLike (text : String) : Bool :=
  match text.toList with
  | '-' :: _ :: _ => true
  | _ => false

/-- Divides a text at its first equals sign. -/
def splitAtEquals (cs : List Char) : List Char × Option (List Char) :=
  match cs.dropWhile (· ≠ '=') with
  | [] => (cs, none)
  | _ :: value => (cs.takeWhile (· ≠ '='), some value)

/-- The item of an option with a value. -/
def valuedItem {α : Type} (switch : Switch α) (read : String → Option α) (value : String) :
    Except Stop (Item α) :=
  match read value with
  | some setting => .ok (.setting switch.long setting)
  | none => .error .misuse

/-- The items of letters joined behind one dash. -/
def readLetters {α : Type} (switches : List (Switch α)) :
    List Char → Except Stop (List (Item α) × Waiting α)
  | [] => .ok ([], none)
  | letter :: rest =>
    match switches.find? (·.short = some letter) with
    | none => .error .misuse
    | some switch =>
      match switch.meaning, rest with
      | .stopping reason, _ => .ok ([.stop reason], none)
      | .flag setting, _ => do
        let (items, waiting) ← readLetters switches rest
        return (.setting switch.long setting :: items, waiting)
      | .valued read, [] => .ok ([], some (switch, read))
      | .valued read, '=' :: value => do
        return ([← valuedItem switch read (String.ofList value)], none)
      | .valued read, value => do
        return ([← valuedItem switch read (String.ofList value)], none)

/-- The items of an argument that starts with two dashes, which are taken off. -/
def readLong {α : Type} (switches : List (Switch α)) (text : List Char) :
    Except Stop (List (Item α) × Waiting α) :=
  let (name, value?) := splitAtEquals text
  match switches.find? (·.long = String.ofList name) with
  | none => .error .misuse
  | some switch =>
    match switch.meaning, value? with
    | .stopping reason, none => .ok ([.stop reason], none)
    | .flag setting, none => .ok ([.setting switch.long setting], none)
    | .stopping _, some _ | .flag _, some _ => .error .misuse
    | .valued read, none => .ok ([], some (switch, read))
    | .valued read, some value => do
      return ([← valuedItem switch read (String.ofList value)], none)

/-- Goes through items that were read, after the options in `seen`. Answers the options seen then,
unless one of them is given twice or the reading is to stop. -/
def checkSeen {α : Type} (seen : List String) : List (Item α) → Except Stop (List String)
  | [] => .ok seen
  | .argument _ :: items => checkSeen seen items
  | .stop reason :: _ => .error reason
  | .setting name _ :: items =>
    if seen.contains name then .error .misuse else checkSeen (name :: seen) items

/-- The items of a command line after the options in `seen`. Where the first argument ends the
reading, the arguments from there on are given back. -/
def readItems {α : Type} (switches : List (Switch α)) (arguments : Arguments) (seen : List String)
    (waiting : Waiting α) : List String → Except Stop (List (Item α) × List String)
  | [] => if waiting.isSome then .error .misuse else .ok ([], [])
  | arg :: args =>
    match waiting, arg.toList with
    | some (switch, read), _ =>
      if isOptionLike arg then .error .misuse
      else do
        let item ← valuedItem switch read arg
        let seen ← checkSeen seen [item]
        let (items, rest) ← readItems switches arguments seen none args
        return (item :: items, rest)
    | none, ['-', '-'] =>
      match arguments with
      | .ending => .error .misuse
      | .accepted passes =>
        if args.all passes then .ok (args.map .argument, []) else .error .misuse
    | none, '-' :: '-' :: text => do
      let (found, stillWaiting) ← readLong switches text
      let seen ← checkSeen seen found
      let (items, rest) ← readItems switches arguments seen stillWaiting args
      return (found ++ items, rest)
    | none, '-' :: letter :: letters => do
      let (found, stillWaiting) ← readLetters switches (letter :: letters)
      let seen ← checkSeen seen found
      let (items, rest) ← readItems switches arguments seen stillWaiting args
      return (found ++ items, rest)
    | none, _ =>
      match arguments with
      | .ending => .ok ([], arg :: args)
      | .accepted passes =>
        if passes arg then do
          let (items, rest) ← readItems switches arguments seen none args
          return (.argument arg :: items, rest)
        else .error .misuse

/-- The settings among items. -/
def settingsOf {α : Type} (items : List (Item α)) : List α :=
  items.filterMap fun
    | .setting _ value => some value
    | _ => none

/-- The arguments among items. -/
def argumentsOf {α : Type} (items : List (Item α)) : List String :=
  items.filterMap fun
    | .argument text => some text
    | _ => none

end ClassDiagram.CommandLine
