import SyntaxPaint.Text.Basic
import SyntaxPaint.Number.Rounding

/-!
Decimals as they are written: a sign, digits with an optional point, and an optional exponent of
ten. A written decimal is read as an exact number and rounded once.
-/
namespace SyntaxPaint

/-- The number `significand * 10 ^ exponent` with its sign; a negative zero is possible. -/
structure Decimal where
  negative : Bool
  significand : Nat
  exponent : Int
  deriving DecidableEq, Repr

namespace Decimal

def ofDigits (digits : Text) : Nat :=
  digits.foldl (fun n c => 10 * n + (c.toNat - '0'.toNat)) 0

def sign : Text → Bool × Text
  | '-' :: t => (true, t)
  | '+' :: t => (false, t)
  | t => (false, t)

def exponent? : Text → Option Int
  | [] => some 0
  | c :: t =>
    if c.toLower == 'e' then
      let (negative, digits) := sign t
      (Text.natural? digits).map fun n => if negative then -(n : Int) else n
    else none

def read? (t : Text) : Option Decimal :=
  let (negative, t) := sign t
  let whole := t.takeWhile Char.isDigit
  let rest := t.dropWhile Char.isDigit
  let (fraction, rest) :=
    match rest with
    | '.' :: r => (r.takeWhile Char.isDigit, r.dropWhile Char.isDigit)
    | r => ([], r)
  if whole.isEmpty && fraction.isEmpty then none
  else (exponent? rest).map fun e => ⟨negative, ofDigits (whole ++ fraction), e - fraction.length⟩

/-- Decimals beyond `10 ^ 400` or below `10 ^ (-400)` lie outside both binary formats, so that
their powers of ten need not be computed. -/
def bound : Int := 400

def rank (f : BinaryFormat) (d : Decimal) : Nat :=
  let size := (Text.ofNat d.significand).length + d.exponent
  if d.significand == 0 || size < -bound then 0
  else if bound < size then f.infinityRank
  else if 0 ≤ d.exponent then f.rankOfRatio (d.significand * Nat.pow 10 d.exponent.toNat) 1
  else f.rankOfRatio d.significand (Nat.pow 10 (-d.exponent).toNat)

example : read? "+.5".toList = some ⟨false, 5, -1⟩ := by decide
example : read? "-1.25E+2".toList = some ⟨true, 125, 0⟩ := by decide
example : read? ".".toList = none ∧ read? "1e".toList = none ∧ read? "1_0".toList = none := by
  decide

end Decimal

end SyntaxPaint
