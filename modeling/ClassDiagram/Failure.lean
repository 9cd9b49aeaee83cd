/-!
# Failures

A failure is a request that cannot be met: an unknown name of a language, mode or format, or
settings that no diagram can be drawn with. What is wrong with a single source file is not a
failure; it is a warning beside the result.
-/

namespace ClassDiagram

/-- What is wrong with settings. -/
inductive SettingsFault
  | noColumns
  | emptyBox
  | narrowColumn (columnWidth boxWidth : Nat)
  | noSourceBytes
  | unknownLogFormat (given : String) (known : List String)
deriving DecidableEq

/-- The wording of a fault in settings. -/
def SettingsFault.message : SettingsFault → String
  | noColumns => "columns must be at least 1"
  | emptyBox => "box width and member height must be positive"
  | narrowColumn columnWidth boxWidth =>
    "column width " ++ toString columnWidth ++ " is narrower than box width " ++ toString boxWidth
  | noSourceBytes => "max source size must be positive"
  | unknownLogFormat given known =>
    "unknown log format '" ++ given ++ "', expected one of " ++ ", ".intercalate known

/-- A request that cannot be met. -/
inductive Failure
  | unknownLanguage (given : String)
  | unknownMode (given : String)
  | unknownFormat (given : String)
  | invalidSettings (fault : SettingsFault)
deriving DecidableEq

/-- The wording of a failure. -/
def Failure.message : Failure → String
  | unknownLanguage given => "Unknown language variant: " ++ given
  | unknownMode given => "Unknown extraction mode: " ++ given
  | unknownFormat given => "Unknown output format: " ++ given
  | invalidSettings fault => "Invalid configuration: " ++ fault.message

end ClassDiagram
