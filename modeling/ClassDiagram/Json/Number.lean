/-!
# JSON numbers

The parts of a number as it is written, and whether its value can be held by a binary
floating-point number of 64 bits: it must not round to infinity.
-/

namespace ClassDiagram.Json

/-- The value of a decimal digit. -/
def digitValue (c : Char) : Nat := c.toNat - 48

/-- The value of a list of decimal digits. -/
def digitsValue (digits : List Char) : Nat := digits.foldl (fun n c => 10 * n + digitValue c) 0

/-- A number as it is written. -/
structure Numeral where
  negative : Bool
  /-- The digits before the point. -/
  integer : List Char
  /-- The digits after the point, empty if there is no point. -/
  fraction : List Char
  /-- The exponent, with its sign, if one is written. -/
  exponent : Option Int

namespace Numeral

/-- Whether the number is written with digits only. -/
def isNatural (n : Numeral) : Bool := !n.negative && n.fraction.isEmpty && n.exponent.isNone

/-- The least number that rounds to infinity: halfway between the largest number of the format and
the next power of two. -/
def overflow : Nat := Nat.pow 2 1024 - Nat.pow 2 970

/-- Whether a number rounds to a finite one. The order of magnitude decides, except for numbers of
309 digits, so that no power with a large exponent has to be computed. -/
def isFinite (n : Numeral) : Bool :=
  let digits := (n.integer ++ n.fraction).dropWhile (· = '0')
  let scale : Int := n.exponent.getD 0 - n.fraction.length
  let magnitude : Int := digits.length + scale
  if digits.isEmpty || magnitude < 309 then true
  else if 309 < magnitude then false
  else if 0 ≤ scale then digitsValue digits * Nat.pow 10 scale.toNat < overflow
  else digitsValue digits < overflow * Nat.pow 10 (-scale).toNat

end Numeral

end ClassDiagram.Json
