import SyntaxPaint.Text.Basic

/-!
Engines turn source text into markup, or say what went wrong. All that the rest of the library
knows of an engine is what it replies, which languages it lists and which it accepts.
-/
namespace SyntaxPaint

inductive HighlightError where
  | themeNotFound (name : Text)
  | themeRead (name : Text) (reason : Text)
  | engineStart (reason : Text)
  | engine (reason : Text)
  | unsupportedLanguage (language : Text)
  | unterminatedTag (offset : Nat)
  | inputOutput (reason : Text)
  | breakdown
  deriving DecidableEq, Repr

namespace HighlightError

def message : HighlightError → Text
  | themeNotFound name => "Theme not found: ".toList ++ name
  | themeRead name reason =>
    "Theme '".toList ++ name ++ "' could not be read: ".toList ++ reason
  | engineStart reason => "Engine initialization failed: ".toList ++ reason
  | engine reason => "Engine error: ".toList ++ reason
  | unsupportedLanguage language => "Unsupported language: ".toList ++ language
  | unterminatedTag offset =>
    "Malformed markup at offset ".toList ++ Text.ofNat offset ++ ": unterminated span tag".toList
  | inputOutput reason => "I/O error: ".toList ++ reason
  | breakdown => "Engine broke down".toList

def causes : HighlightError → List Text
  | themeRead _ reason | inputOutput reason => [reason]
  | _ => []

end HighlightError

/-- An engine. The reply may depend on how many calls were made before. An engine that breaks down
replies with `HighlightError.breakdown`, and no caller hears from it again. -/
structure Engine where
  reply : Nat → Option Text → Text → Except HighlightError Text
  languages : List Text
  supports : Text → Bool

namespace Engine

def Steady (e : Engine) : Prop :=
  ∀ m n language source, e.reply m language source = e.reply n language source

def Sturdy (e : Engine) : Prop := ∀ n language source, e.reply n language source ≠ .error .breakdown

def forLanguage (language : Text) (reply : Nat → Option Text → Text → Except HighlightError Text) :
    Engine where
  reply
  languages := [language]
  supports := (· == language)

def constant (language : Text) (reply : Except HighlightError Text) : Engine :=
  forLanguage language fun _ _ _ => reply

/-- The engine that answers its first call as the first of the engines would, and so on; the last
one goes on for ever. -/
def inTurn (language : Text) (first : Engine) (others : List Engine) : Engine :=
  forLanguage language fun n => ((first :: others)[n]?.getD (others.getLastD first)).reply n

end Engine

end SyntaxPaint
