import SyntaxPaint.Number.Decimal

/-!
Single-precision numbers: font sizes and line spacings. Equality is that of numbers and not of
bit patterns: the two zeros are equal, and a NaN differs from everything, itself included. Away
from NaN it is an equivalence (`beq_self`, `beq_symm`, `beq_trans`).
-/
namespace SyntaxPaint

/-- A number of the 32-bit format: a NaN, or a sign and the rank of the number without it. -/
inductive Single where
  | nan
  | signed (negative : Bool) (rank : Fin (BinaryFormat.single.infinityRank + 1))
  deriving DecidableEq, Repr

namespace Single

def ofRank (negative : Bool) (rank : Nat) : Single :=
  .signed negative ⟨min rank BinaryFormat.single.infinityRank, by omega⟩

def same : Single → Single → Bool
  | .signed s r, .signed s' r' => r == r' && (s == s' || r.val == 0)
  | _, _ => false

instance : BEq Single := ⟨same⟩

def isNaN : Single → Bool
  | .nan => true
  | .signed _ _ => false

theorem beq_self {a : Single} (h : a.isNaN = false) : (a == a) = true := by
  cases a with
  | nan => simp [isNaN] at h
  | signed s r => simp [BEq.beq, same]

theorem beq_symm {a b : Single} (h : (a == b) = true) : (b == a) = true := by
  cases a <;> cases b <;> simp_all [BEq.beq, same]
  grind

theorem beq_trans {a b c : Single} (h : (a == b) = true) (h' : (b == c) = true) :
    (a == c) = true := by
  cases a <;> cases b <;> cases c <;> simp_all [BEq.beq, same]
  grind

def bits : Single → Nat
  | .nan => 0x7fc00000
  | .signed negative rank => (if negative then 0x80000000 else 0) + rank.val

def zero : Single := ofRank false 0

def isFinite : Single → Bool
  | .nan => false
  | .signed _ rank => rank.val < BinaryFormat.single.infinityRank

def isPositive : Single → Bool
  | .nan => false
  | .signed negative rank => !negative && 0 < rank.val

def ofDecimal (d : Decimal) : Single := ofRank d.negative (d.rank .single)

def read? (t : Text) : Option Single :=
  let (negative, name) := Decimal.sign t
  let name := Text.asciiLower name
  if name == "nan".toList then some .nan
  else if name == "inf".toList || name == "infinity".toList then
    some (ofRank negative BinaryFormat.single.infinityRank)
  else (Decimal.read? t).map ofDecimal

end Single

end SyntaxPaint
