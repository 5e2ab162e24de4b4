import SyntaxPaint.Stylesheet.Basic

/-!
Reading style sheets. Comments are taken out first. A rule is a selector and a body in braces
without further braces; braces around rules, as of a media query, are passed through. A selector
names the class after the last dot of each of its parts, and parts without a usable class name
are passed over, as are declarations without a property or a value.
-/
namespace SyntaxPaint

namespace Stylesheet

/-- The text without its comments. A comment that does not end takes the rest with it. -/
def withoutComments (t : Text) : Text :=
  match _h : Text.cutAt "/*".toList t with
  | none => t
  | some (before, rest) =>
    match _h' : Text.cutAt "*/".toList rest with
    | none => before
    | some (_, after) => before ++ withoutComments after
termination_by t.length
decreasing_by
  have := Text.length_lt_of_cutAt (by decide) _h
  have := Text.length_lt_of_cutAt (by decide) _h'
  omega

def lastStatement (t : Text) : Text :=
  (t.reverse.takeWhile fun c => c != '\x7d' && c != ';').reverse

def rules (t : Text) : List (Text × Text) :=
  match _h : Text.cutAt ['\x7b'] t with
  | none => []
  | some (before, inside) =>
    match _h' : Text.cutAt ['\x7d'] inside with
    | none => []
    | some (body, after) =>
      if body.contains '\x7b' then rules inside else (lastStatement before, body) :: rules after
termination_by t.length
decreasing_by
  all_goals
    have := Text.length_lt_of_cutAt (by decide) _h
    have := Text.length_lt_of_cutAt (by decide) _h'
    omega

def isNameChar (c : Char) : Bool := c.isAlphanum || c == '-' || c == '_'

/-- The class that a part of a selector names: what follows its last dot, if that is a name. -/
def partClass? (part : Text) : Option Text :=
  let name := (part.reverse.takeWhile (· != '.')).reverse
  if part.contains '.' && !name.isEmpty && name.all isNameChar then some name else none

def selectorClasses (selector : Text) : List Text :=
  (selector.splitOnP fun c => c == ',' || Text.isBlank c).filterMap partClass?

def partDeclaration? (part : Text) : Option Declaration :=
  match Text.cutAt [':'] part with
  | none => none
  | some (property, value) =>
    let property := Text.asciiLower property.trim
    let value := value.trim
    if property.isEmpty || value.isEmpty then none else some ⟨property, value⟩

def bodyDeclarations (body : Text) : List Declaration :=
  ((body.splitOnP (· == ';')).filterMap partDeclaration?).foldl Declaration.add []

def addRule (sheet : Stylesheet) (rule : Text × Text) : Stylesheet :=
  let ds := bodyDeclarations rule.2
  if ds.isEmpty then sheet
  else (selectorClasses rule.1).foldl (fun sheet name => sheet.add name ds) sheet

def read (css : Text) : Stylesheet := (rules (withoutComments css)).foldl addRule []

end Stylesheet

end SyntaxPaint
