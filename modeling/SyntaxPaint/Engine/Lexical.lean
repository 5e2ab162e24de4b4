import SyntaxPaint.Engine.Basic
import SyntaxPaint.Markup.Token

/-!
A small lexical engine: it tells digits, letters and comments apart, and puts a span around each
stretch of characters of one kind that has a class.
-/
namespace SyntaxPaint

inductive LexicalKind where
  | digit
  | letter
  | comment
  | other
  deriving DecidableEq, Repr

namespace LexicalKind

def ofChar (c : Char) : LexicalKind :=
  if c.isDigit then .digit else if c.isAlpha then .letter else .other

/-- The kinds of the characters of a text. A comment runs from `/*` through the next `*/` behind it,
or to the end of the text. -/
def ofText (comments : Bool) : Text → List (Char × LexicalKind)
  | [] => []
  | '/' :: '*' :: rest =>
    if comments then
      match _h : Text.cutAt ['*', '/'] rest with
      | some (inside, after) =>
        ('/' :: '*' :: inside ++ ['*', '/']).map (·, .comment) ++ ofText comments after
      | none => ('/' :: '*' :: rest).map (·, .comment)
    else ('/', .other) :: ('*', .other) :: ofText comments rest
  | c :: rest => (c, ofChar c) :: ofText comments rest
termination_by t => t.length
decreasing_by
  · have := Text.length_lt_of_cutAt (by simp) _h
    simp only [List.length_cons]
    omega
  · simp only [List.length_cons]
    omega
  · simp only [List.length_cons]
    omega

end LexicalKind

/-- The classes of the kinds, and whether special characters are written as references. -/
structure LexicalClasses where
  digit : Option Text
  letter : Option Text
  comment : Option Text
  escapes : Bool
  deriving Repr

namespace LexicalClasses

def of? (l : LexicalClasses) : LexicalKind → Option Text
  | .digit => l.digit
  | .letter => l.letter
  | .comment => l.comment
  | .other => none

def writeChar (l : LexicalClasses) (c : Char) : Text := if l.escapes then Markup.escape c else [c]

def write (l : LexicalClasses) (within : Option LexicalKind) : List (Char × LexicalKind) → Text
  | [] => if within.isSome then Markup.closingTag else []
  | (c, kind) :: rest =>
    let stays := within.all (· == kind)
    let closing := if stays then [] else Markup.closingTag
    match (if stays then within else none), l.of? kind with
    | none, some name =>
      closing ++ Markup.openingTag name ++ l.writeChar c ++ write l (some kind) rest
    | still, _ => closing ++ l.writeChar c ++ write l still rest

def markup (l : LexicalClasses) (source : Text) : Text :=
  l.write none (LexicalKind.ofText l.comment.isSome source)

end LexicalClasses

def Engine.lexical (language : Text) (classes : LexicalClasses) : Engine :=
  .forLanguage language fun _ asked source =>
    match asked with
    | some other =>
      if other == language then .ok (classes.markup source) else .error (.unsupportedLanguage other)
    | none => .ok (classes.markup source)

end SyntaxPaint
