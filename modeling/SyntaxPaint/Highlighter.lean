import SyntaxPaint.Config
import SyntaxPaint.Engine.Basic
import SyntaxPaint.Grammar.Selection
import SyntaxPaint.Markup.Attributed
import SyntaxPaint.Theme.Assets

/-!
A highlighter: an engine for the markup, a theme for the attributes, and the place where other
themes come from. A change of theme keeps the code font and the line spacing; the other faces are
derived anew. Set up from the settings alone, the engine comes before the theme, so a faulty grammar
directory is what gets reported if both are faulty.
-/
namespace SyntaxPaint

structure Highlighter where
  engine : Engine
  assets : ThemeAssets
  theme : Theme

namespace Highlighter

def start (engine : Engine) (assets : ThemeAssets) (config : Config) (resolver : FontResolver) :
    Except HighlightError Highlighter :=
  (assets.load config.theme).map fun source =>
    ⟨engine, assets, .ofSource source config.codeFont resolver⟩

def withTheme (h : Highlighter) (name : Text) : Except HighlightError Highlighter :=
  (h.assets.load name).map fun source =>
    { h with
      theme := (Theme.ofSource source h.theme.fonts.code h.theme.resolver).withLineSpacing
        h.theme.paragraph.lineSpacing }

def withFonts (h : Highlighter) (code : Font) (italic bold : Option Font) : Highlighter :=
  { h with theme := h.theme.withFonts code italic bold }

def withCodeFont (h : Highlighter) (code : Font) : Highlighter :=
  { h with theme := h.theme.withCodeFont code }

def withLineSpacing (h : Highlighter) (spacing : Single) : Highlighter :=
  { h with theme := h.theme.withLineSpacing spacing }

/-- The text with its runs; `call` is the number of calls that the engine has answered before. -/
def highlight (h : Highlighter) (call : Nat) (language : Option Text) (source : Text) :
    Except HighlightError AttributedText :=
  (h.engine.reply call language source).bind (Markup.attributed h.theme)

def page (sheet markup : Text) : Text :=
  "<style>".toList ++ sheet ++ "</style><pre><code class=\"".toList ++ documentClass ++
    "\">".toList ++ markup ++ "</code></pre>".toList

def html (h : Highlighter) (call : Nat) (language : Option Text) (source : Text) :
    Except HighlightError Text :=
  (h.engine.reply call language source).map (page h.theme.lightSource)

end Highlighter

namespace Config
variable {G : Type} (lib : GrammarLibrary G)

def assets (c : Config) (files : FileView) : ThemeAssets :=
  match c.themeDirectory with
  | some path => .behind (files path)
  | none => .bundled

def grammars (c : Config) (files : FileView) : Except HighlightError (List G) :=
  match c.grammarDirectory with
  | some path => lib.bundledWith path (files (.text path))
  | none => .ok lib.bundled

def highlighter (c : Config) (files : FileView) : Except HighlightError Highlighter :=
  (c.grammars lib files).bind fun gs =>
    Highlighter.start (lib.engine gs) (c.assets files) c .everyFace

end Config

end SyntaxPaint
