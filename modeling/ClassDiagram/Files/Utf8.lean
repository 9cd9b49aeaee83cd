/-!
# Decoding of UTF-8

Bytes are decoded without failure: every longest start of a sequence that cannot be completed, and
every byte that starts no sequence, becomes one replacement character.
-/

namespace ClassDiagram.Utf8

/-- The character in place of bytes that encode none. -/
def replacement : Char := '\ufffd'

/-- What may follow the first byte of a sequence of several bytes: the least and the greatest
second byte, and the number of bytes after the second. -/
def followers? (first : Nat) : Option (Nat × Nat × Nat) :=
  if 0xC2 ≤ first && first ≤ 0xDF then some (0x80, 0xBF, 0)
  else if first = 0xE0 then some (0xA0, 0xBF, 1)
  else if first = 0xED then some (0x80, 0x9F, 1)
  else if 0xE1 ≤ first && first ≤ 0xEF then some (0x80, 0xBF, 1)
  else if first = 0xF0 then some (0x90, 0xBF, 2)
  else if 0xF1 ≤ first && first ≤ 0xF3 then some (0x80, 0xBF, 2)
  else if first = 0xF4 then some (0x80, 0x8F, 2)
  else none

/-- A byte inside a sequence. -/
def isInner (byte : Nat) : Bool := 0x80 ≤ byte && byte ≤ 0xBF

/-- The character of a sequence, from the bits of its first byte and its inner bytes. -/
def assemble (first : Nat) (inner : List Nat) : Char :=
  let bits := match inner.length with
    | 1 => first % 32
    | 2 => first % 16
    | _ => first % 8
  Char.ofNat (inner.foldl (fun value byte => 64 * value + byte % 64) bits)

/-- The bytes after `first` that belong to its sequence, as far as they are there. -/
def inner (least greatest further : Nat) : List Nat → List Nat
  | [] => []
  | b :: rest =>
    if least ≤ b && b ≤ greatest then b :: (rest.take further).takeWhile isInner else []

/-- The character that starts with the byte `first`, and how many of the bytes after it belong to
it. -/
def read (first : Nat) (rest : List Nat) : Char × Nat :=
  if first < 0x80 then (Char.ofNat first, 0)
  else
    match followers? first with
    | none => (replacement, 0)
    | some (least, greatest, further) =>
      let bytes := inner least greatest further rest
      (if bytes.length = further + 1 then assemble first bytes else replacement, bytes.length)

/-- Decodes bytes after the characters in `done`, which are in reverse; the first `passed` bytes
belong to the last of them. -/
def decodeOnto (done : List Char) (passed : Nat) : List Nat → List Char
  | [] => done.reverse
  | byte :: rest =>
    match passed with
    | further + 1 => decodeOnto done further rest
    | 0 =>
      let (c, further) := read byte rest
      decodeOnto (c :: done) further rest

/-- The text of some bytes. -/
def decode (bytes : List UInt8) : String := String.ofList (decodeOnto [] 0 (bytes.map (·.toNat)))

end ClassDiagram.Utf8
