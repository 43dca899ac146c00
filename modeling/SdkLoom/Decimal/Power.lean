/-!
# Powers

Powers of two and ten, and the ranges of integers of fixed width.
-/

namespace SdkLoom

/-- A power of two. -/
def pow2 (n : Nat) : Nat := Nat.pow 2 n

/-- A power of ten. -/
def pow10 (n : Nat) : Nat := Nat.pow 10 n

/-- Whether an integer is a signed one of some number of bits, one of them the sign. -/
def fitsSigned (bits : Nat) (i : Int) : Bool := -(pow2 (bits - 1) : Int) ≤ i && i < (pow2 (bits - 1) : Int)

/-- Whether an integer is an unsigned one of some number of bits. -/
def fitsUnsigned (bits : Nat) (i : Int) : Bool := 0 ≤ i && i < (pow2 bits : Int)

end SdkLoom
