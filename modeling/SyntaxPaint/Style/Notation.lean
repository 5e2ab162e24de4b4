import SyntaxPaint.Json.Record
import SyntaxPaint.Json.Writer
import SyntaxPaint.Style.Attributes

/-!
The JSON forms of colours, fonts and attributes. Members are written in the order of the fields,
and what an attribute set leaves open is left out.
-/
namespace SyntaxPaint

namespace Color

def toJson (c : Color) : Json :=
  .object [("r".toList, .ofNat c.red.toNat), ("g".toList, .ofNat c.green.toNat),
    ("b".toList, .ofNat c.blue.toNat), ("a".toList, .ofNat c.alpha.toNat)]

def ofJson? (j : Json) : Option Color := do
  match ← j.fields? ["r".toList, "g".toList, "b".toList, "a".toList] with
  | [r, g, b, a] =>
    let byte (field : Option Json) : Option UInt8 :=
      (Json.required (Json.word? 8) field).map UInt8.ofNat
    pure ⟨← byte r, ← byte g, ← byte b, ← byte a⟩
  | _ => none

end Color

namespace FontVariant

def name : FontVariant → Text
  | .regular => "regular".toList
  | .bold => "bold".toList
  | .italic => "italic".toList
  | .oblique => "oblique".toList

def ofName? (t : Text) : Option FontVariant :=
  [FontVariant.regular, .bold, .italic, .oblique].find? (·.name == t)

def toJson (v : FontVariant) : Json := .ofText v.name

def ofJson? (j : Json) : Option FontVariant := j.choice?.bind ofName?

end FontVariant

namespace Font

def toJson (f : Font) : Json :=
  .object [("family".toList, .ofText f.family), ("size".toList, .ofSingle f.size),
    ("variant".toList, f.variant.toJson)]

def ofJson? (j : Json) : Option Font := do
  match ← j.fields? ["family".toList, "size".toList, "variant".toList] with
  | [family, size, variant] =>
    pure ⟨← Json.required Json.text? family, ← Json.required Json.single? size,
      ← Json.required FontVariant.ofJson? variant⟩
  | _ => none

end Font

namespace ParagraphStyle

def toJson (p : ParagraphStyle) : Json := .object [("line_spacing".toList, .ofSingle p.lineSpacing)]

def ofJson? (j : Json) : Option ParagraphStyle := do
  match ← j.fields? ["line_spacing".toList] with
  | [spacing] => pure ⟨← Json.required Json.single? spacing⟩
  | _ => none

end ParagraphStyle

namespace Attributes

def member (name : String) (write : α → Json) (field : Option α) : List (Text × Json) :=
  (field.map fun value => (name.toList, write value)).toList

def toJson (a : Attributes) : Json :=
  .object (("font".toList, a.font.toJson) :: member "foreground" Color.toJson a.foreground ++
    member "background" Color.toJson a.background ++
    member "paragraph" ParagraphStyle.toJson a.paragraph)

def ofJson? (j : Json) : Option Attributes := do
  match ← j.fields?
      ["font".toList, "foreground".toList, "background".toList, "paragraph".toList] with
  | [font, foreground, background, paragraph] =>
    pure ⟨← Json.required Font.ofJson? font, ← Json.optional Color.ofJson? foreground,
      ← Json.optional Color.ofJson? background, ← Json.optional ParagraphStyle.ofJson? paragraph⟩
  | _ => none

end Attributes

end SyntaxPaint
