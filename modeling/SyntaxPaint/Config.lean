import SyntaxPaint.Environment
import SyntaxPaint.Json.Record
import SyntaxPaint.Style.Font

/-!
The settings of the highlighter: how they are read from the environment and from JSON, and what
options change in them.
-/
namespace SyntaxPaint

structure Config where
  theme : Text
  themeDirectory : Option OsText
  grammarDirectory : Option Text
  debounce : Nat
  fontFamily : Text
  fontSize : Single
  trace : Bool

namespace Config

def standard : Config where
  theme := "pojoaque".toList
  themeDirectory := none
  grammarDirectory := none
  debounce := 1000
  fontFamily := Font.standard.family
  fontSize := Font.standard.size
  trace := false

def codeFont (c : Config) : Font := .regular c.fontFamily c.fontSize

def debounceSeconds (c : Config) : Nat := c.debounce / 1000

def size? (value : Text) : Option Single :=
  (Single.read? value).filter fun s => s.isFinite && s.isPositive

def ofEnvironment (env : Environment) : Config where
  theme := (env.filled? "HIGHLIGHTR_THEME".toList).getD standard.theme
  themeDirectory := (env.filled? "HIGHLIGHTR_THEME_DIR".toList).map .text
  grammarDirectory := env.filled? "HIGHLIGHTR_SYNTAX_DIR".toList
  debounce :=
    ((env.filled? "HIGHLIGHTR_DEBOUNCE_MS".toList).bind (Text.word? 64)).getD standard.debounce
  fontFamily := (env.filled? "HIGHLIGHTR_FONT_FAMILY".toList).getD standard.fontFamily
  fontSize := ((env.filled? "HIGHLIGHTR_FONT_SIZE".toList).bind size?).getD standard.fontSize
  trace := env.isOn "HIGHLIGHTR_TRACE".toList

/-- The settings with what options say about themes. A blank theme says nothing; one that is not is
taken as it stands, with the blanks around it. -/
def withOptions (c : Config) (theme : Option Text) (themeDirectory : Option OsText) : Config :=
  { c with
    theme := (theme.filter fun name => !name.trim.isEmpty).getD c.theme
    themeDirectory := themeDirectory.or c.themeDirectory }

def fieldNames : List Text :=
  ["theme", "theme_dir", "syntax_dir", "debounce_ms", "font_family", "font_size", "trace"].map
    String.toList

def ofJson? (j : Json) : Option Config := do
  match ← j.fields? fieldNames with
  | [theme, themes, grammars, debounce, family, size, trace] =>
    pure {
      theme := ← Json.required Json.text? theme
      themeDirectory := (← Json.optional Json.text? themes).map .text
      grammarDirectory := ← Json.optional Json.text? grammars
      debounce := ← Json.required (Json.word? 64) debounce
      fontFamily := ← Json.required Json.text? family
      fontSize := ← Json.required Json.single? size
      trace := ← Json.required Json.bool? trace }
  | _ => none

end Config

end SyntaxPaint
