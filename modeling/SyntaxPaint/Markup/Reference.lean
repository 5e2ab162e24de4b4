import SyntaxPaint.Text.Bytes

/-!
Character references: an ampersand, a name or a number, and a semicolon. A reference that denotes
no character is ordinary text.
-/
namespace SyntaxPaint.Reference

def named : List (Text × Char) := [
  ("amp".toList, '&'), ("lt".toList, '<'), ("gt".toList, '>'), ("quot".toList, '"'),
  ("apos".toList, '\''), ("nbsp".toList, '\u00a0'), ("copy".toList, '\u00a9'),
  ("reg".toList, '\u00ae'), ("trade".toList, '\u2122'), ("hellip".toList, '\u2026'),
  ("mdash".toList, '\u2014'), ("ndash".toList, '\u2013'), ("lsquo".toList, '\u2018'),
  ("rsquo".toList, '\u2019'), ("ldquo".toList, '\u201c'), ("rdquo".toList, '\u201d'),
  ("laquo".toList, '\u00ab'), ("raquo".toList, '\u00bb'), ("middot".toList, '\u00b7'),
  ("bull".toList, '\u2022'), ("times".toList, '\u00d7'), ("divide".toList, '\u00f7'),
  ("deg".toList, '\u00b0'), ("sect".toList, '\u00a7'), ("para".toList, '\u00b6'),
  ("cent".toList, '\u00a2'), ("pound".toList, '\u00a3'), ("yen".toList, '\u00a5'),
  ("euro".toList, '\u20ac')]

def maxLength : Nat := 32

def numbered? (digits : Text) : Option Char :=
  match digits with
  | 'x' :: hex => (Text.hexadecimal? hex).bind Text.scalar?
  | 'X' :: hex => (Text.hexadecimal? hex).bind Text.scalar?
  | digits => (Text.natural? digits).bind Text.scalar?

def denoted? : Text → Option Char
  | '#' :: digits => numbered? digits
  | name => named.lookup name

def sign : Text → Text × Text
  | '#' :: t => (['#'], t)
  | t => ([], t)

/-- The text between the ampersand and the semicolon of the form that may stand behind an
ampersand: an optional number sign, then letters and digits, at least one and not too many. -/
def body? (t : Text) : Option Text :=
  let name := (sign t).2.takeWhile Char.isAlphanum
  let body := (sign t).1 ++ name
  match (sign t).2.dropWhile Char.isAlphanum with
  | ';' :: _ => if name.isEmpty || maxLength < body.length then none else some body
  | _ => none

/-- The character that the text behind an ampersand starts with, and how many characters of that
text belong to the reference, the semicolon included. -/
def read? (t : Text) : Option (Char × Nat) :=
  (body? t).bind fun body => (denoted? body).map fun c => (c, body.length + 1)

def decode : Text → List (Char × Nat)
  | [] => []
  | c :: t =>
    if c == '&' then
      match read? t with
      | some (d, n) => (d, n + 1) :: decode (t.drop n)
      | none => (c, 1) :: decode t
    else (c, 1) :: decode t
termination_by t => t.length
decreasing_by all_goals simp only [List.length_cons, List.length_drop]; omega

end SyntaxPaint.Reference
