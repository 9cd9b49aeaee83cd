import ClassDiagram.Text.Blank

/-!
# Visibility

The visibility of a member, written as a marker character in front of its signature. A signature
without a marker is private. Splitting a signature and writing it with a normalized marker are
inverse up to the white space around the text.
-/

namespace ClassDiagram

/-- Who may use a member. Access within a C# assembly counts as protected. -/
inductive Visibility
  | publicAccess
  | privateAccess
  | protectedAccess
deriving DecidableEq

namespace Visibility

/-- The visibility of a member that shows none. -/
def default : Visibility := privateAccess

/-- The name under which a visibility is written and read. -/
def name : Visibility → String
  | publicAccess => "public"
  | privateAccess => "private"
  | protectedAccess => "protected"

/-- Every visibility, in the order of listings. -/
def all : List Visibility := [publicAccess, privateAccess, protectedAccess]

/-- The marker character of a visibility. -/
def marker : Visibility → Char
  | publicAccess => '+'
  | privateAccess => '-'
  | protectedAccess => '#'

/-- The visibility that a marker character stands for. -/
def ofMarker? : Char → Option Visibility
  | '+' => some publicAccess
  | '-' => some privateAccess
  | '#' => some protectedAccess
  | _ => none

/-- What a drawn row shows in front of a member: the marker and a space. -/
def glyph (visibility : Visibility) : List Char := [visibility.marker, ' ']

/-- The visibility that an access keyword stands for. -/
def ofKeyword? : String → Option Visibility
  | "public" => some publicAccess
  | "private" => some privateAccess
  | "protected" | "internal" => some protectedAccess
  | _ => none

/-- Splits a signature into its visibility and its text without the marker and without the white
space around it. -/
def split (signature : List Char) : Visibility × List Char :=
  match signature with
  | [] => (default, [])
  | c :: rest =>
    match ofMarker? c with
    | some visibility => (visibility, Text.trim rest)
    | none => (default, Text.trim (c :: rest))

/-- A signature with the glyph of its visibility in front. -/
def normalize (signature : List Char) : List Char :=
  let (visibility, bare) := split signature
  visibility.glyph ++ bare

end Visibility

end ClassDiagram
