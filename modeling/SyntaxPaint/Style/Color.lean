import SyntaxPaint.Text.Basic
import SyntaxPaint.Text.Bytes

/-!
Colours and the colour literals of style sheets. A literal that is no known form stands for grey,
so reading a colour never fails.
-/
namespace SyntaxPaint

structure Color where
  red : UInt8
  green : UInt8
  blue : UInt8
  alpha : UInt8
  deriving DecidableEq, Repr

namespace Color

def rgb (red green blue : UInt8) : Color := ⟨red, green, blue, 255⟩

def white : Color := rgb 255 255 255

def gray : Color := rgb 128 128 128

def named : List (Text × Color) :=
  [("white".toList, white), ("black".toList, rgb 0 0 0), ("red".toList, rgb 255 0 0),
    ("green".toList, rgb 0 255 0), ("blue".toList, rgb 0 0 255)]

def ofHex? (digits : Text) : Option Color :=
  match digits.mapM Text.hexValue? with
  | some [r₁, r₂, g₁, g₂, b₁, b₂] =>
    some (rgb (.ofNat (16 * r₁ + r₂)) (.ofNat (16 * g₁ + g₂)) (.ofNat (16 * b₁ + b₂)))
  | some [r, g, b] => some (rgb (.ofNat (17 * r)) (.ofNat (17 * g)) (.ofNat (17 * b)))
  | _ => none

def ofCss (value : Text) : Color :=
  match value.trim with
  | '#' :: digits => (ofHex? digits).getD gray
  | name => (named.lookup (Text.asciiLower name)).getD gray

/-- The colour of a background declaration, which may hold more than a colour: from the first
number sign, if there is one, only the part up to the next blank counts. -/
def ofBackground (value : Text) : Color :=
  match value.dropWhile (· != '#') with
  | [] => ofCss value
  | digits => ofCss (digits.takeWhile (!Text.isBlank ·))

def toCss (c : Color) : Text :=
  '#' :: Text.ofByte c.red ++ Text.ofByte c.green ++ Text.ofByte c.blue

example : ofCss " #1a2B3c ".toList = rgb 26 43 60 := by decide
example : ofCss "#ABC".toList = rgb 170 187 204 := by decide
example : ofBackground "url(x) #fff no-repeat".toList = white := by decide

end Color

end SyntaxPaint
