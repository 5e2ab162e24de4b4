import SyntaxPaint.Stylesheet.Reader
import SyntaxPaint.Style.Attributes

/-!
Themes: a style sheet, the fonts that its declarations choose from, and a line spacing. A theme
holds nothing that follows from these, so changing a font or the spacing changes every style that
depends on it.
-/
namespace SyntaxPaint

/-- What a single class says about text; what it leaves open stays as the classes around it say. -/
structure ScopeStyle where
  font : Option Font
  foreground : Option Color
  background : Option Color
  deriving Repr

namespace ScopeStyle

def silent : ScopeStyle := ⟨none, none, none⟩

def isSilent (s : ScopeStyle) : Bool :=
  s.font.isNone && s.foreground.isNone && s.background.isNone

def apply (s : ScopeStyle) (a : Attributes) : Attributes :=
  { a with
    font := s.font.getD a.font
    foreground := s.foreground.or a.foreground
    background := s.background.or a.background }

end ScopeStyle

structure Theme where
  source : Text
  sheet : Stylesheet
  fonts : FontSet
  paragraph : ParagraphStyle
  resolver : FontResolver

namespace Theme

def ofSource (source : Text) (code : Font) (resolver : FontResolver) : Theme :=
  { source
    sheet := Stylesheet.read source
    fonts := .around resolver code none none
    paragraph := ⟨.zero⟩
    resolver }

def standard (source : Text) : Theme := ofSource source .standard .everyFace

def withFonts (t : Theme) (code : Font) (italic bold : Option Font) : Theme :=
  { t with fonts := .around t.resolver code italic bold }

def withCodeFont (t : Theme) (code : Font) : Theme := t.withFonts code none none

def withLineSpacing (t : Theme) (spacing : Single) : Theme := { t with paragraph := ⟨spacing⟩ }

def lightSource (t : Theme) : Text := t.sheet.light

def background (t : Theme) : Color := (t.sheet.background?.map Color.ofBackground).getD .white

def styledFont (t : Theme) (value : Text) : Font :=
  let value := Text.asciiLower value.trim
  if value == "italic".toList || value == "oblique".toList then t.fonts.italic else t.fonts.code

/-- The font of a `font-weight` value: bold by name or from a weight of 600 on. -/
def weightedFont (t : Theme) (value : Text) : Font :=
  let value := Text.asciiLower value.trim
  if value == "bold".toList || value == "bolder".toList || (Text.word? 32 value).any (600 ≤ ·) then
    t.fonts.bold
  else t.fonts.code

def declare (t : Theme) (s : ScopeStyle) (d : Declaration) : ScopeStyle :=
  if d.property == "color".toList then { s with foreground := some (.ofCss d.value) }
  else if d.property == "background-color".toList then
    { s with background := some (.ofCss d.value) }
  else if d.property == "font-style".toList then { s with font := some (t.styledFont d.value) }
  else if d.property == "font-weight".toList then { s with font := some (t.weightedFont d.value) }
  else s

def compile (t : Theme) (ds : List Declaration) : ScopeStyle := ds.foldl t.declare .silent

def style? (t : Theme) (name : Text) : Option ScopeStyle :=
  ((t.sheet.class? name).map t.compile).filter (!·.isSilent)

def scopeNames (t : Theme) : List Text :=
  (t.sheet.filter fun c => !(t.compile c.declarations).isSilent).map (·.name)

def baseAttributes (t : Theme) : Attributes := .plain t.fonts.code

def applyClass (t : Theme) (a : Attributes) (name : Text) : Attributes :=
  match t.style? name with
  | some s => s.apply a
  | none => a

/-- The attributes of text under a stack of scopes, outermost first. Each entry may hold several
classes with blanks between them; a class prevails over those before it. -/
def resolve (t : Theme) (stack : List Text) : Attributes :=
  (stack.flatMap Text.words).foldl t.applyClass
    { t.baseAttributes with paragraph := some t.paragraph }

end Theme

end SyntaxPaint
