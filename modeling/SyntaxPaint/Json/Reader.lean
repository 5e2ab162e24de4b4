import SyntaxPaint.Json.Basic

/-!
Reading JSON. Each reader takes what it reads from the start of the text and returns the rest.
The nesting of a text is bounded by its length, which is the fuel of the recursion.
-/
namespace SyntaxPaint.Json

def isSpace (c : Char) : Bool := c == ' ' || c == '\t' || c == '\n' || c == '\r'

def skipSpace (t : Text) : Text := t.dropWhile isSpace

/-- Reads a string up to and with its closing mark. Controls must be escaped, and an escape is a
known letter or four hexadecimal digits behind a `u`. -/
def readString : Text → Option (Text × Text)
  | '"' :: t => some ([], t)
  | '\\' :: 'u' :: a :: b :: c :: d :: t =>
    (unit? a b c d).bind fun _ =>
      (readString t).map fun r => ('\\' :: 'u' :: a :: b :: c :: d :: r.1, r.2)
  | '\\' :: c :: t =>
    (shortEscape? c).bind fun _ => (readString t).map fun r => ('\\' :: c :: r.1, r.2)
  | c :: t =>
    if c == '\\' || c.toNat < 0x20 then none else (readString t).map fun r => (c :: r.1, r.2)
  | [] => none

def readDigits (t : Text) : Option (Text × Text) :=
  let digits := t.takeWhile Char.isDigit
  if digits.isEmpty then none else some (digits, t.dropWhile Char.isDigit)

def readWhole : Text → Option (Text × Text)
  | '0' :: t => some (['0'], t)
  | t => readDigits t

def readFraction : Text → Option (Text × Text)
  | '.' :: t => (readDigits t).map fun r => ('.' :: r.1, r.2)
  | t => some ([], t)

def readExponent : Text → Option (Text × Text)
  | c :: t =>
    if c == 'e' || c == 'E' then
      match t with
      | s :: t =>
        if s == '+' || s == '-' then (readDigits t).map fun r => (c :: s :: r.1, r.2)
        else (readDigits (s :: t)).map fun r => (c :: r.1, r.2)
      | [] => none
    else some ([], c :: t)
  | [] => some ([], [])

def readUnsigned (t : Text) : Option (Text × Text) := do
  let (whole, t) ← readWhole t
  let (fraction, t) ← readFraction t
  let (exponent, t) ← readExponent t
  pure (whole ++ fraction ++ exponent, t)

def readNumber : Text → Option (Text × Text)
  | '-' :: t => (readUnsigned t).map fun r => ('-' :: r.1, r.2)
  | t => readUnsigned t

mutual

def readValue : Nat → Text → Option (Json × Text)
  | 0, _ => none
  | fuel + 1, t =>
    match skipSpace t with
    | 'n' :: 'u' :: 'l' :: 'l' :: t => some (.null, t)
    | 't' :: 'r' :: 'u' :: 'e' :: t => some (.bool true, t)
    | 'f' :: 'a' :: 'l' :: 's' :: 'e' :: t => some (.bool false, t)
    | '"' :: t => (readString t).map fun r => (.string r.1, r.2)
    | '[' :: t =>
      match skipSpace t with
      | ']' :: t => some (.array [], t)
      | t => (readItems fuel t).map fun r => (.array r.1, r.2)
    | '\x7b' :: t =>
      match skipSpace t with
      | '\x7d' :: t => some (.object [], t)
      | t => (readMembers fuel t).map fun r => (.object r.1, r.2)
    | t => (readNumber t).map fun r => (.number r.1, r.2)

def readItems : Nat → Text → Option (List Json × Text)
  | 0, _ => none
  | fuel + 1, t => do
    let (item, t) ← readValue fuel t
    match skipSpace t with
    | ',' :: t => (readItems fuel t).map fun r => (item :: r.1, r.2)
    | ']' :: t => some ([item], t)
    | _ => none

def readMembers : Nat → Text → Option (List (Text × Json) × Text)
  | 0, _ => none
  | fuel + 1, t =>
    match skipSpace t with
    | '"' :: t => do
      let (name, t) ← readString t
      match skipSpace t with
      | ':' :: t =>
        let (value, t) ← readValue fuel t
        match skipSpace t with
        | ',' :: t => (readMembers fuel t).map fun r => ((name, value) :: r.1, r.2)
        | '\x7d' :: t => some ([(name, value)], t)
        | _ => none
      | _ => none
    | _ => none

end

def read? (t : Text) : Option Json :=
  match readValue (2 * t.length + 2) t with
  | some (value, rest) => if (skipSpace rest).isEmpty then some value else none
  | none => none

end SyntaxPaint.Json
