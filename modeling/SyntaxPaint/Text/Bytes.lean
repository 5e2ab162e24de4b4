import SyntaxPaint.Text.Basic

/-!
Text as bytes, in UTF-8, and the hexadecimal digits that colours, character references and JSON
escapes are written with. What comes from the operating system need not be text.
-/
namespace SyntaxPaint

namespace Text

def utf8Length (t : Text) : Nat := t.foldl (fun size c => size + c.utf8Size) 0

def ofUtf8? (bytes : ByteArray) : Option Text := (String.fromUTF8? bytes).map String.toList

def utf8 (t : Text) : ByteArray := (String.ofList t).toByteArray

theorem ofUtf8?_eq_some {bytes : ByteArray} {t : Text} :
    ofUtf8? bytes = some t ↔ bytes = utf8 t := by
  unfold ofUtf8? utf8 String.fromUTF8?
  constructor
  · intro read
    obtain ⟨s, found, rfl⟩ := Option.map_eq_some_iff.mp read
    split at found
    · obtain rfl := Option.some.inj found
      rw [String.ofList_toList]
      rfl
    · cases found
  · rintro rfl
    rw [dif_pos (String.ofList t).isValidUTF8]
    show some (String.ofList t).toList = some t
    rw [String.toList_ofList]

def followers (first : UInt8) : List (UInt8 × UInt8) :=
  let any := (0x80, 0xbf)
  if first < 0xc2 || 0xf4 < first then []
  else if first < 0xe0 then [any]
  else if first == 0xe0 then [(0xa0, 0xbf), any]
  else if first == 0xed then [(0x80, 0x9f), any]
  else if first < 0xf0 then [any, any]
  else if first == 0xf0 then [(0x90, 0xbf), any, any]
  else if first == 0xf4 then [(0x80, 0x8f), any, any]
  else [any, any, any]

def fitting : List (UInt8 × UInt8) → List UInt8 → Nat
  | (low, high) :: ranges, b :: bytes => if low ≤ b && b ≤ high then fitting ranges bytes + 1 else 0
  | _, _ => 0

/-- The text of bytes with U+FFFD in the place of whatever begins like a character and is none. -/
def ofUtf8Lossy : List UInt8 → Text
  | [] => []
  | b :: rest =>
    let n := fitting (followers b) rest
    (ofUtf8? ⟨(b :: rest.take n).toArray⟩).getD ['\ufffd'] ++ ofUtf8Lossy (rest.drop n)
termination_by bytes => bytes.length
decreasing_by
  simp only [List.length_cons, List.length_drop]
  omega

def scalar? (n : Nat) : Option Char := if n.isValidChar then some (Char.ofNat n) else none

def hexValue? (c : Char) : Option Nat :=
  if c.isDigit then some (c.toNat - '0'.toNat)
  else if 'a' ≤ c ∧ c ≤ 'f' then some (c.toNat - 'a'.toNat + 10)
  else if 'A' ≤ c ∧ c ≤ 'F' then some (c.toNat - 'A'.toNat + 10)
  else none

def hexDigit (n : Nat) : Char := "0123456789abcdef".toList.getD n '0'

def ofHexValues (values : List Nat) : Nat := values.foldl (fun n v => 16 * n + v) 0

def hexadecimal? (t : Text) : Option Nat :=
  if t.isEmpty then none else (t.mapM hexValue?).map ofHexValues

def ofByte (b : UInt8) : Text := [hexDigit (b.toNat / 16), hexDigit (b.toNat % 16)]

end Text

/-- What the operating system hands over: a text, or bytes that are none. -/
inductive OsText where
  | text (t : Text)
  | raw (bytes : List UInt8) (broken : Text.ofUtf8? ⟨bytes.toArray⟩ = none)
  deriving DecidableEq

namespace OsText

def text? : OsText → Option Text
  | text t => some t
  | raw _ _ => none

def isEmpty : OsText → Bool
  | text t => t.isEmpty
  | raw _ _ => false

def display : OsText → Text
  | text t => t
  | raw bytes _ => Text.ofUtf8Lossy bytes

end OsText

end SyntaxPaint
