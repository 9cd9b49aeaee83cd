/-!
# Globs

Patterns for relative paths. A star or a question mark stands for bytes inside one component;
two stars between slashes stand for any number of components; brackets enclose a set of
characters, and braces enclose alternatives. A path matches as a whole, byte by byte.
-/

namespace ClassDiagram.Glob

/-- A part of a pattern. -/
inductive Token
  | byte (b : UInt8)
  /-- One byte that is no slash. -/
  | any
  /-- Any bytes that are no slashes. -/
  | many
  | set (negated : Bool) (ranges : List (Char × Char))
  /-- Any number of components at the start, each with its slash. -/
  | leading
  /-- A slash, or any number of components between two slashes. -/
  | between
  /-- A slash and everything below it. -/
  | trailing
  | choice (options : List (List Token))

/-- The byte that separates components. -/
def slash : UInt8 := 47

/-! ## Matching -/

/-- Whether some rest of a path passes, the whole path included. -/
def anyRest (next : List UInt8 → Bool) : List UInt8 → Bool
  | [] => next []
  | b :: bs => next (b :: bs) || anyRest next bs

/-- Whether some rest of a path passes that starts inside its first component, or after it. -/
def anyInComponent (next : List UInt8 → Bool) : List UInt8 → Bool
  | [] => next []
  | b :: bs => next (b :: bs) || (b != slash && anyInComponent next bs)

/-- Whether some rest of a path passes that starts after a slash. -/
def anyAfterSlash (next : List UInt8 → Bool) : List UInt8 → Bool
  | [] => false
  | b :: bs => (b == slash && next bs) || anyAfterSlash next bs

/-- Whether a byte is in a set. -/
def inSet (ranges : List (Char × Char)) (b : UInt8) : Bool :=
  ranges.any fun (lo, hi) => lo.toNat ≤ b.toNat && b.toNat ≤ hi.toNat

mutual

/-- Whether a path starts with a token so that `next` passes on what follows. -/
def Token.run (next : List UInt8 → Bool) : Token → List UInt8 → Bool
  | .byte b, path => path.head? == some b && next path.tail
  | .any, path => path.head?.any (· != slash) && next path.tail
  | .many, path => anyInComponent next path
  | .set negated ranges, path => path.head?.any (inSet ranges · != negated) && next path.tail
  | .leading, path => next path || anyAfterSlash next path
  | .between, path => path.head? == some slash && (next path.tail || anyAfterSlash next path.tail)
  | .trailing, path => path.head? == some slash && anyRest next path.tail
  | .choice options, path => runAny next options path

/-- Whether a path starts with tokens so that `next` passes on what follows. -/
def runAll (next : List UInt8 → Bool) : List Token → List UInt8 → Bool
  | [], path => next path
  | token :: tokens, path => token.run (fun rest => runAll next tokens rest) path

/-- Whether a path starts with one of several alternatives so that `next` passes on what follows.
-/
def runAny (next : List UInt8 → Bool) : List (List Token) → List UInt8 → Bool
  | [], _ => false
  | option :: options, path => runAll next option path || runAny next options path

end

/-- Whether a pattern matches a path. -/
def isMatch (tokens : List Token) (path : String) : Bool :=
  runAll List.isEmpty tokens path.toUTF8.toList

/-! ## Reading -/

/-- The tokens of a character that stands for itself, last byte first. -/
def literal (c : Char) : List Token := (String.singleton c).toUTF8.toList.reverse.map .byte

/-- Reads the ranges of a set up to its closing bracket. The ranges in `done` are in reverse.
`first` says that no character was read yet, and `joining` that a dash was read that may
join two characters. -/
def setRanges (done : List (Char × Char)) (first joining : Bool) :
    List Char → Option (List (Char × Char) × List Char)
  | [] => none
  | c :: rest =>
    if c = ']' && !first then
      some (if joining then (('-', '-') :: done).reverse else done.reverse, rest)
    else if c = '-' && !first && !joining then setRanges done false true rest
    else
      match joining, done with
      | true, (lo, _) :: others =>
        if c.toNat < lo.toNat then none else setRanges ((lo, c) :: others) false false rest
      | _, _ => setRanges ((c, c) :: done) false false rest

/-- Reads a set after its opening bracket. -/
def set? : List Char → Option (Token × List Char)
  | '!' :: rest | '^' :: rest => (setRanges [] true false rest).map fun (ranges, after) =>
    (.set true ranges, after)
  | rest => (setRanges [] true false rest).map fun (ranges, after) => (.set false ranges, after)

/-- The tokens that two stars give after the tokens `current`, which are in reverse, and the text
after them. The stars stand for components only if slashes or the ends of the pattern enclose
them. -/
def doubleStar (current : List Token) (before : Option Char) (rest : List Char) :
    List Token × List Char :=
  match current, rest with
  | [], [] => ([.leading], [])
  | [], '/' :: after => ([.leading], after)
  | [], _ => ([.many, .many], rest)
  | last :: others, _ =>
    if before != some '/' then (.many :: .many :: current, rest)
    else
      match last, rest with
      | .leading, [] => (current, [])
      | .leading, '/' :: after => (current, after)
      | _, [] => (.trailing :: others, [])
      | _, '/' :: after => (.between :: others, after)
      | _, _ => (.many :: .many :: current, rest)

/-- A group of alternatives that is being read: the tokens before it, and its alternatives so far,
both in reverse. -/
structure Group where
  outer : List Token
  options : List (List Token)

/-- Reads a pattern inside of `groups`, after the tokens `current`, which are in reverse, and the
character `before`. The fuel bounds the number of steps; none takes fewer than one character. -/
def readFrom (fuel : Nat) (groups : List Group) (current : List Token) (before : Option Char)
    (cs : List Char) : Option (List Token) :=
  match fuel, cs with
  | _, [] => if groups.isEmpty then some current.reverse else none
  | 0, _ => none
  | fuel + 1, c :: rest =>
    match c, rest, groups with
    | '?', _, _ => readFrom fuel groups (.any :: current) (some c) rest
    | '*', '*' :: after, _ =>
      let (tokens, left) := doubleStar current before after
      readFrom fuel groups tokens (if left.length < after.length then some '/' else some '*') left
    | '*', _, _ => readFrom fuel groups (.many :: current) (some c) rest
    | '[', _, _ => do
      let (token, after) ← set? rest
      readFrom fuel groups (token :: current) (some ']') after
    | '\x7b', _, _ => readFrom fuel (⟨current, []⟩ :: groups) [] (some c) rest
    | '\x7d', _, group :: outer =>
      let options := (current.reverse :: group.options).reverse
      readFrom fuel outer (.choice options :: group.outer) (some c) rest
    | '\x7d', _, [] => none
    | ',', _, group :: outer =>
      readFrom fuel (⟨group.outer, current.reverse :: group.options⟩ :: outer) [] (some c) rest
    | '\\', [], _ => none
    | '\\', e :: after, _ => readFrom fuel groups (literal e ++ current) (some e) after
    | _, _, _ => readFrom fuel groups (literal c ++ current) (some c) rest

/-- Reads a pattern. A pattern with an unclosed set or group, or with a backslash at its end, is
refused. -/
def read? (pattern : List Char) : Option (List Token) :=
  readFrom pattern.length [] [] none pattern

end ClassDiagram.Glob
