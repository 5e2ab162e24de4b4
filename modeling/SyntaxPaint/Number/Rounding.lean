/-!
Binary floating-point formats, seen through ranks: the numbers of one sign that a format holds
are numbered upward from zero, and infinity has the rank behind the greatest of them. A positive
ratio is rounded to the nearest number, a tie to the one of even rank; for the interchange
formats the rank is the bit pattern without its sign bit.
-/
namespace SyntaxPaint

/-- A format with `precision` significant bits whose least positive number is `2 ^ lowest`. -/
structure BinaryFormat where
  precision : Nat
  lowest : Int
  infinityRank : Nat
  deriving DecidableEq, Repr

namespace BinaryFormat

def single : BinaryFormat := ⟨24, -149, 0x7f800000⟩

def double : BinaryFormat := ⟨53, -1074, 0x7ff0000000000000⟩

def divideToEven (num den : Nat) : Nat :=
  let q := num / den
  let r := num % den
  if 2 * r < den || (2 * r == den && q % 2 == 0) then q else q + 1

def scaled (num den : Nat) (shift : Int) : Nat × Nat :=
  if 0 ≤ shift then (num * Nat.pow 2 shift.toNat, den) else (num, den * Nat.pow 2 (-shift).toNat)

def floorLog2 (num den : Nat) : Int :=
  let guess : Int := num.log2 - den.log2
  let (n, d) := scaled num den (-guess)
  if d ≤ n then guess else guess - 1

/-- The rank of the number nearest to `num / den`, infinity included. -/
def rankOfRatio (f : BinaryFormat) (num den : Nat) : Nat :=
  if num == 0 || den == 0 then 0
  else
    let unit := max (floorLog2 num den - (f.precision - 1)) f.lowest
    let (n, d) := scaled num den (-unit)
    min f.infinityRank ((unit - f.lowest).toNat * Nat.pow 2 (f.precision - 1) + divideToEven n d)

def dyadic (f : BinaryFormat) (rank : Nat) : Nat × Int :=
  let half := Nat.pow 2 (f.precision - 1)
  if rank < half then (rank, f.lowest)
  else (rank % half + half, f.lowest + (rank / half - 1 : Nat))

def rankOfDyadic (f : BinaryFormat) (d : Nat × Int) : Nat :=
  let (n, den) := scaled d.1 1 d.2
  f.rankOfRatio n den

def multiply (f : BinaryFormat) (a b : Nat) : Nat :=
  let x := f.dyadic a
  let y := f.dyadic b
  f.rankOfDyadic (x.1 * y.1, x.2 + y.2)

def divide (f : BinaryFormat) (a b : Nat) : Nat :=
  let x := f.dyadic a
  let y := f.dyadic b
  let (n, d) := scaled x.1 y.1 (x.2 - y.2)
  f.rankOfRatio n d

example : single.rankOfRatio 14 1 = 1096810496 := by decide
example : single.rankOfRatio 1 10 = 1036831949 := by decide
example : single.rankOfRatio 1 (10 ^ 45) = 1 := by decide +kernel
example : single.rankOfRatio (7 * 10 ^ 38) 1 = single.infinityRank := by decide +kernel

end BinaryFormat

end SyntaxPaint
