import SyntaxPaint.Json.Basic
import SyntaxPaint.Number.Shortest

/-!
Writing JSON, on one line without spaces or over several lines with an indentation. Numbers of
single precision are written with the fewest digits that read back.
-/
namespace SyntaxPaint

/-- How a decimal is laid out: the powers of ten of the first digit for which positional notation
is used, the fraction that a whole number is given there, the mark in front of the exponent
elsewhere and the sign of a positive exponent. -/
structure DecimalLayout where
  lowest : Int
  highest : Int
  wholeFraction : Text
  exponentMark : Text
  positiveExponent : Text
  deriving Repr

namespace DecimalLayout

def write (l : DecimalLayout) (d : Digits) : Text :=
  if l.lowest ≤ d.exponent && d.exponent ≤ l.highest then
    if d.exponent < 0 then
      "0.".toList ++ List.replicate (-d.exponent - 1).toNat '0' ++ d.digits
    else
      let count := d.exponent.toNat + 1
      let whole := d.digits.take count
      let fraction := d.digits.drop count
      whole ++ List.replicate (count - whole.length) '0' ++
        (if fraction.isEmpty then l.wholeFraction else '.' :: fraction)
  else
    d.digits.take 1 ++ (if d.digits.length ≤ 1 then [] else '.' :: d.digits.drop 1) ++
      l.exponentMark ++
      (if d.exponent < 0 then '-' :: Text.ofNat (-d.exponent).toNat
       else l.positiveExponent ++ Text.ofNat d.exponent.toNat)

end DecimalLayout

namespace Json

def sizeLayout : DecimalLayout := ⟨-6, 12, ".0".toList, "e".toList, "+".toList⟩

def ofSingle : Single → Json
  | .nan => .null
  | .signed negative rank =>
    if rank.val == BinaryFormat.single.infinityRank then .null
    else
      let digits := if rank.val == 0 then "0.0".toList else sizeLayout.write (.shortest rank.val)
      .number (if negative then '-' :: digits else digits)

def commaSeparated (items : List Text) : Text := [','].intercalate items

mutual

def write : Json → Text
  | .null => "null".toList
  | .bool true => "true".toList
  | .bool false => "false".toList
  | .number written => written
  | .string written => '"' :: written ++ ['"']
  | .array items => '[' :: commaSeparated (writeItems items) ++ [']']
  | .object members => '\x7b' :: commaSeparated (writeMembers members) ++ ['\x7d']

def writeItems : List Json → List Text
  | [] => []
  | j :: js => write j :: writeItems js

def writeMembers : List (Text × Json) → List Text
  | [] => []
  | (name, j) :: ms => ('"' :: name ++ ['"', ':'] ++ write j) :: writeMembers ms

end

def newLine (level : Nat) : Text := '\n' :: List.replicate (2 * level) ' '

def block (opening closing : Char) (level : Nat) (entries : List Text) : Text :=
  if entries.isEmpty then [opening, closing]
  else
    opening :: commaSeparated (entries.map (newLine (level + 1) ++ ·)) ++ newLine level ++ [closing]

mutual

def writeIndented (level : Nat) : Json → Text
  | .array items => block '[' ']' level (indentedItems (level + 1) items)
  | .object members => block '\x7b' '\x7d' level (indentedMembers (level + 1) members)
  | .null => "null".toList
  | .bool b => if b then "true".toList else "false".toList
  | .number written => written
  | .string written => '"' :: written ++ ['"']

def indentedItems (level : Nat) : List Json → List Text
  | [] => []
  | j :: js => writeIndented level j :: indentedItems level js

def indentedMembers (level : Nat) : List (Text × Json) → List Text
  | [] => []
  | (name, j) :: ms =>
    ('"' :: name ++ ['"', ':', ' '] ++ writeIndented level j) :: indentedMembers level ms

end

def pretty (j : Json) : Text := writeIndented 0 j

example : write (ofSingle (.ofRank false 1096810496)) = "14.0".toList := by decide +kernel
example : write (ofSingle (.ofRank false 2139095039)) = "3.4028235e+38".toList := by decide +kernel

end Json

end SyntaxPaint
