import ClassDiagram.Layout.Diagram
import ClassDiagram.Text.DisplayWidth

/-!
# Summaries

The relationships of a diagram as text, one to a line. The names in front are padded to the same
display width, so that the arrows stand below each other.
-/

namespace ClassDiagram.Summary

open Text

/-- What is said of a diagram without boxes. -/
def noClasses : String := "No classes recognized"

/-- What is said of a diagram without edges. -/
def noRelationships : String := "No relationships found"

section

variable (width : List Char → Nat)

/-- The width of the name an edge starts from. -/
def nameWidth (edge : Edge) : Nat := width edge.sourceName.toList

/-- The widest name that an edge starts from. -/
def column (edges : List Edge) : Nat := (edges.map (nameWidth width)).foldl max 0

/-- The line of an edge whose name is padded to a column. -/
def line (column : Nat) (edge : Edge) : List Char :=
  edge.sourceName.toList ++ List.replicate (column - nameWidth width edge) ' ' ++ " --[".toList
    ++ edge.kind.name.toList ++ "]--> ".toList ++ edge.targetName.toList ++ ['\n']

/-- The summary of a diagram whose names have the given widths. -/
def renderBy (diagram : Diagram) : String :=
  if diagram.boxes.isEmpty then noClasses ++ "\n"
  else if diagram.edges.isEmpty then noRelationships ++ "\n"
  else String.ofList (diagram.edges.flatMap (line width (column width diagram.edges)))

end

/-- The summary of a diagram. -/
def render (diagram : Diagram) : String := renderBy displayWidth diagram

end ClassDiagram.Summary
