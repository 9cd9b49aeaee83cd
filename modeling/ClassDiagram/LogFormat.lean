import ClassDiagram.Failure
import ClassDiagram.Text.Blank

/-!
# Log formats

The layouts that log lines can be asked for in.
-/

namespace ClassDiagram

/-- A layout of log lines. -/
inductive LogFormat
  | compact
  | pretty
  | json
deriving DecidableEq

namespace LogFormat

/-- The name under which a log format is written and read. -/
def name : LogFormat → String
  | compact => "compact"
  | pretty => "pretty"
  | json => "json"

/-- Every log format, in the order of listings. -/
def all : List LogFormat := [compact, pretty, json]

/-- Reads the name of a log format, in any case and with white space around it. The failure quotes
the text in its own case. -/
def parse (text : String) : Except Failure LogFormat :=
  match all.find? (·.name = Text.choice text) with
  | some format => .ok format
  | none =>
    let given := String.ofList (Text.trim text.toList)
    .error (.invalidSettings (.unknownLogFormat given (all.map name)))

end LogFormat

end ClassDiagram
