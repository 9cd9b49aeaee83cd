/-!
# XML elements

Elements with attributes and child elements, and their text. Every tag stands on a line of its
own, indented by two spaces for each element around it. Attribute values are escaped so that none
of their characters can end the value or be changed by a reader of the document.
-/

namespace ClassDiagram.Xml

/-- What stands for a character in an attribute value. Line breaks and tabs become references,
since a reader would turn them into spaces. -/
def escapeChar (c : Char) : List Char :=
  match c with
  | '&' => "&amp;".toList
  | '<' => "&lt;".toList
  | '>' => "&gt;".toList
  | '"' => "&quot;".toList
  | '\'' => "&apos;".toList
  | '\n' => "&#10;".toList
  | '\r' => "&#13;".toList
  | '\t' => "&#9;".toList
  | _ => [c]

/-- The characters that do not stand for themselves in an attribute value. -/
def escaped : List Char := ['&', '<', '>', '"', '\'', '\n', '\r', '\t']

/-- A text as it is written in an attribute value. A text with nothing to escape is written as it
is. -/
def escape (text : List Char) : List Char :=
  if text.any escaped.contains then text.flatMap escapeChar else text

theorem escapeChar_of_not_mem {c : Char} (h : c ∉ escaped) : escapeChar c = [c] := by
  simp only [escaped, List.mem_cons, List.not_mem_nil, or_false, not_or] at h
  unfold escapeChar
  split
  case h_9 => rfl
  all_goals simp at h

/-- What is written as it is would not be changed character by character either. -/
theorem flatMap_escapeChar_of_forall {text : List Char} (h : ∀ c ∈ text, c ∉ escaped) :
    text.flatMap escapeChar = text := by
  induction text with
  | nil => rfl
  | cons c text ih =>
      rw [List.flatMap_cons, escapeChar_of_not_mem (h c List.mem_cons_self),
        ih fun d hd => h d (List.mem_cons_of_mem _ hd), List.singleton_append]

/-- Escaping goes through a text character by character. -/
theorem escape_eq_flatMap (text : List Char) : escape text = text.flatMap escapeChar := by
  unfold escape
  split
  next => rfl
  next hnone =>
    have hplain : ∀ c ∈ text, c ∉ escaped := by simpa using hnone
    exact (flatMap_escapeChar_of_forall hplain).symm

/-- An element. -/
inductive Element
  | node (name : String) (attributes : List (String × String)) (children : List Element)

namespace Element

/-- The text of attributes, each with a space in front. -/
def printAttributes (attributes : List (String × String)) : List Char :=
  attributes.flatMap fun (name, value) =>
    ' ' :: name.toList ++ '=' :: '"' :: escape value.toList ++ ['"']

mutual

/-- The lines of an element inside of `depth` others. -/
def print (depth : Nat) : Element → List Char
  | node name attributes [] =>
    List.replicate (2 * depth) ' ' ++ '<' :: name.toList ++ printAttributes attributes
      ++ ['/', '>', '\n']
  | node name attributes (child :: rest) =>
    List.replicate (2 * depth) ' ' ++ '<' :: name.toList ++ printAttributes attributes
      ++ ['>', '\n'] ++ print (depth + 1) child ++ printAll (depth + 1) rest
      ++ List.replicate (2 * depth) ' ' ++ '<' :: '/' :: name.toList ++ ['>', '\n']

/-- The lines of elements that follow each other. -/
def printAll (depth : Nat) : List Element → List Char
  | [] => []
  | element :: rest => print depth element ++ printAll depth rest

end

end Element

/-- A document: its declaration and its outermost element. -/
def document (root : Element) : List Char :=
  "<?xml version=\"1.0\" encoding=\"UTF-8\"?>\n".toList ++ root.print 0

end ClassDiagram.Xml
