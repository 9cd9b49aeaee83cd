/-!
# Layers of a source text

Every character of a source belongs to one of three layers: program text, the content of a
literal, or a comment. The reading that assigns them knows the literals of both languages: strings
and character literals with backslash escapes, verbatim strings in which a quote is written twice,
and text blocks between triple quotes. It never fails; whatever is left open at the end of the
source keeps its layer to the end.
-/

namespace ClassDiagram.Source

/-- What a character of a source belongs to. The quotes around a literal are program text. -/
inductive Layer
  | program
  | literal
  | comment
deriving DecidableEq

/-- What the reading is inside of, between two characters. -/
inductive Mode
  | program
  | lineComment
  | blockComment
  /-- A string; a verbatim one has no backslash escapes and may span lines. -/
  | string (verbatim : Bool)
  | textBlock
  | character
deriving DecidableEq

/-- The state of the reading: it stands in a mode, or it is passing further characters of a token
that is already recognized, after which it stands in `next`. -/
inductive State
  | within (mode : Mode)
  | passing (further : Nat) (layer : Layer) (next : Mode)
deriving DecidableEq

/-- A quote opens a verbatim string if it follows `@` or `@$`. -/
def opensVerbatim : (beforeLast last : Option Char) → Bool
  | _, some '@' => true
  | some '@', some '$' => true
  | _, _ => false

/-- The layer of the character `c` read in a mode, and the state after it. `beforeLast` and `last`
are the characters before `c`, and `rest` is the text after it. -/
def Mode.read (mode : Mode) (beforeLast last : Option Char) (c : Char) (rest : List Char) :
    Layer × State :=
  match mode with
  | .program =>
    match c, rest with
    | '/', '/' :: _ => (.comment, .within .lineComment)
    | '/', '*' :: _ => (.comment, .passing 1 .comment .blockComment)
    | '"', '"' :: '"' :: _ => (.program, .passing 2 .program .textBlock)
    | '"', _ => (.program, .within (.string (opensVerbatim beforeLast last)))
    | '\'', _ => (.program, .within .character)
    | _, _ => (.program, .within .program)
  | .lineComment => (.comment, .within (if c = '\n' then .program else .lineComment))
  | .blockComment =>
    match c, rest with
    | '*', '/' :: _ => (.comment, .passing 1 .comment .program)
    | _, _ => (.comment, .within .blockComment)
  | .string false =>
    match c, rest with
    | '\\', _ :: _ => (.literal, .passing 1 .literal (.string false))
    | '"', _ => (.program, .within .program)
    | '\n', _ => (.program, .within .program)
    | _, _ => (.literal, .within (.string false))
  | .string true =>
    match c, rest with
    | '"', '"' :: _ => (.literal, .passing 1 .literal (.string true))
    | '"', _ => (.program, .within .program)
    | _, _ => (.literal, .within (.string true))
  | .textBlock =>
    match c, rest with
    | '"', '"' :: '"' :: _ => (.program, .passing 2 .program .program)
    | _, _ => (.literal, .within .textBlock)
  | .character =>
    match c, rest with
    | '\\', _ :: _ => (.literal, .passing 1 .literal .character)
    | '\'', _ => (.program, .within .program)
    | '\n', _ => (.program, .within .program)
    | _, _ => (.literal, .within .character)

/-- The layer of the next character in any state, and the state after it. A character that is
being passed has the layer that its token settled. -/
def State.read (state : State) (beforeLast last : Option Char) (c : Char) (rest : List Char) :
    Layer × State :=
  match state with
  | .within mode => mode.read beforeLast last c rest
  | .passing further layer next =>
    (layer, if further ≤ 1 then .within next else .passing (further - 1) layer next)

/-- Reads a text to its end from a state, after the characters `beforeLast` and `last`, and puts
its layered characters after `done`, which holds those already read in reverse. -/
def layersOnto (done : List (Char × Layer)) (state : State) (beforeLast last : Option Char) :
    List Char → List (Char × Layer)
  | [] => done.reverse
  | c :: rest =>
    let (layer, after) := state.read beforeLast last c rest
    layersOnto ((c, layer) :: done) after last (some c) rest

/-- The characters of a source, each with its layer. -/
def layers (source : List Char) : List (Char × Layer) :=
  layersOnto [] (.within .program) none none source

end ClassDiagram.Source
