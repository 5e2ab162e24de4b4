import SyntaxPaint.Json.Basic
import SyntaxPaint.Number.Single

/-!
Reading typed values out of JSON. A record is written as an object, whose unknown members are
passed over and whose known ones may stand only once, or as an array of exactly its fields. A
choice is written as its name, or as an object that gives its name the value null.
-/
namespace SyntaxPaint.Json

def fields? (names : List Text) : Json → Option (List (Option Json))
  | .array items => if items.length == names.length then some (items.map some) else none
  | .object members => do
    let keys ← members.mapM fun m => unescape m.1
    let known := keys.zip (members.map (·.2))
    names.mapM fun name =>
      match known.filter (·.1 == name) with
      | [] => some none
      | [(_, value)] => some (some value)
      | _ => none
  | _ => none

def required (read : Json → Option α) (field : Option Json) : Option α := field.bind read

def optional (read : Json → Option α) : Option Json → Option (Option α)
  | none => some none
  | some .null => some none
  | some value => (read value).map some

def choice? : Json → Option Text
  | .string written => unescape written
  | .object [(name, .null)] => unescape name
  | _ => none

def bool? : Json → Option Bool
  | .bool b => some b
  | _ => none

def word? (bits : Nat) (j : Json) : Option Nat := (natural? j).filter (· < Nat.pow 2 bits)

def greatestWord : Nat := 0xffffffffffffffff

def leadingDigits (n : Nat) : Nat × Nat :=
  if n ≤ greatestWord then (n, 0)
  else
    let shorter := leadingDigits (n / 10)
    (shorter.1, shorter.2 + 1)
termination_by n
decreasing_by
  simp only [greatestWord] at *
  omega

/-- The rank of the double that `rank` scaled by a power of ten gives, one rounded operation at a
time: powers of ten up to 308 are multiplied or divided by, and smaller ones are reached in steps.
A number too great for the format has none. -/
def scaleDouble (rank : Nat) (exponent : Int) : Option Nat :=
  let power (e : Nat) := BinaryFormat.double.rankOfRatio (Nat.pow 10 e) 1
  if exponent < -308 then
    if rank == 0 then some 0
    else scaleDouble (BinaryFormat.double.divide rank (power 308)) (exponent + 308)
  else if exponent < 0 then some (BinaryFormat.double.divide rank (power (-exponent).toNat))
  else if rank == 0 then some 0
  else if 308 < exponent then none
  else
    let product := BinaryFormat.double.multiply rank (power exponent.toNat)
    if product == BinaryFormat.double.infinityRank then none else some product
termination_by (-exponent).toNat
decreasing_by omega

/-- The double that a decimal is read as: the leading digits that fit into 64 bits, rounded, then
scaled by the power of ten. -/
def doubleRank? (d : Decimal) : Option Nat :=
  let (leading, dropped) := leadingDigits d.significand
  scaleDouble (BinaryFormat.double.rankOfRatio leading 1) (d.exponent + dropped)

def singleThroughDouble? (d : Decimal) : Option Single :=
  (doubleRank? d).map fun rank =>
    Single.ofRank d.negative (BinaryFormat.single.rankOfDyadic (BinaryFormat.double.dyadic rank))

def single? : Json → Option Single
  | .number written => do
    let d ← Decimal.read? written
    let isWhole := written.all fun c => c.isDigit || c == '-'
    let limit := if d.negative then 0x8000000000000000 else greatestWord
    if isWhole && d.significand ≤ limit then pure (Single.ofDecimal d) else singleThroughDouble? d
  | _ => none

end SyntaxPaint.Json
