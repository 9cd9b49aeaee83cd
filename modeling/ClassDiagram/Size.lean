/-!
# Sizes

Measures have 64 bits, and their sums and products wrap around where they grow larger. Computations
with them go through natural numbers and wrap their results.
-/

namespace ClassDiagram

/-- A number of 64 bits. -/
abbrev Size := Fin UInt64.size

namespace Size

/-- What 64 bits hold of a number. -/
def wrap (n : Nat) : Nat := n % UInt64.size

theorem wrap_lt (n : Nat) : wrap n < UInt64.size := Nat.mod_lt n (by decide)

theorem wrap_of_lt {n : Nat} (h : n < UInt64.size) : wrap n = n := Nat.mod_eq_of_lt h

@[simp]
theorem wrap_coe (size : Size) : wrap size = size := wrap_of_lt size.isLt

end Size

end ClassDiagram
