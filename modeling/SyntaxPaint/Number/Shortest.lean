import SyntaxPaint.Number.Single

/-!
The shortest decimal that reads back. Around each number lies the interval of the reals that
round to it; of all decimals in it, those with the fewest digits are wanted, and of them the
nearest. For each count of digits only the two neighbours of the number on that decimal grid can
qualify, and both are tested exactly.
-/
namespace SyntaxPaint

/-- The reals that round to one number, times the common denominator `unit`. -/
structure RoundingInterval where
  low : Nat
  value : Nat
  high : Nat
  unit : Nat
  closed : Bool
  deriving Repr

namespace RoundingInterval

def ofRank (f : BinaryFormat) (rank : Nat) : RoundingInterval :=
  let (m, e) := f.dyadic rank
  let below := if m == Nat.pow 2 (f.precision - 1) && f.lowest < e then 1 else 2
  let power := Nat.pow 2 (if 0 ≤ e then e.toNat else 0)
  { low := (4 * m - below) * power
    value := 4 * m * power
    high := (4 * m + 2) * power
    unit := 4 * Nat.pow 2 (if 0 ≤ e then 0 else (-e).toNat)
    closed := m % 2 == 0 }

def holds (i : RoundingInterval) (num den : Nat) : Bool :=
  let x := num * i.unit
  (i.low * den < x && x < i.high * den) || (i.closed && (x == i.low * den || x == i.high * den))

def neighbour? (i : RoundingInterval) (grid den : Nat) : Option Nat :=
  let floor := i.value * den / (i.unit * grid)
  let left := 2 * (i.value * den - floor * grid * i.unit)
  let lowFirst := left < grid * i.unit || (left == grid * i.unit && floor % 2 == 0)
  let hit (n : Nat) := if i.holds (n * grid) den then some n else none
  if lowFirst then (hit floor).or (hit (floor + 1)) else (hit (floor + 1)).or (hit floor)

end RoundingInterval

structure Digits where
  digits : Text
  exponent : Int
  deriving DecidableEq, Repr

namespace Digits

def ofNat (n : Nat) (scale : Int) : Digits :=
  let all := Text.ofNat n
  { digits := (all.reverse.dropWhile (· == '0')).reverse
    exponent := scale + (all.length - 1 : Nat) }

def search (i : RoundingInterval) (scale : Int) : Nat → Digits
  | 0 => ofNat 0 0
  | fuel + 1 =>
    let (grid, den) :=
      if 0 ≤ scale then (Nat.pow 10 scale.toNat, 1) else (1, Nat.pow 10 (-scale).toNat)
    match i.neighbour? grid den with
    | some n => if n == 0 then search i (scale - 1) fuel else ofNat n scale
    | none => search i (scale - 1) fuel

/-- The shortest digits of the single-precision number of a positive finite rank. The search
starts above its greatest power of ten and ends after nine digits at the latest. -/
def shortest (rank : Nat) : Digits :=
  let i := RoundingInterval.ofRank .single rank
  let above : Int := (Text.ofNat (i.value / i.unit)).length
  if i.unit ≤ i.value then search i above 60 else search i 0 60

end Digits

end SyntaxPaint
