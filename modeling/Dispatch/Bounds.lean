/-!
Numbers of the language are signed 64-bit integers. They are modelled by `Int`. A result of an
expression outside the bounds is an overflow, never a wrapped value; the sums of costs of a
simulation are not checked, and wrap around.
-/

namespace Dispatch

/-- The least number of the language, `-2^63`. -/
def leastNumber : Int := -9223372036854775808

/-- The greatest number of the language, `2^63 - 1`. -/
def greatestNumber : Int := 9223372036854775807

/-- Whether the integer is a number of the language. -/
def inBounds (n : Int) : Bool := leastNumber ≤ n && n ≤ greatestNumber

/-- The number of the language that differs from the integer by a multiple of `2^64`. -/
def wrapped (n : Int) : Int := n.bmod 18446744073709551616

/-- The sum of numbers, added up from the first one on and wrapped after every addition. -/
def wrappedSum (numbers : List Int) : Int :=
  numbers.foldl (fun total number => wrapped (total + number)) 0

example : wrapped (greatestNumber + greatestNumber) = -2 := by decide

end Dispatch
