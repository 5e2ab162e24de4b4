import SyntaxPaint.Pattern.Basic

/-!
Searching for patterns. A pattern is tried at a position together with what has to fit behind it;
alternatives are tried in order until everything behind fits too.
-/
namespace SyntaxPaint

structure Position where
  before : Option Char
  rest : Text
  passed : Nat
  groups : List (Nat × Text)
  deriving Repr

namespace Position

def advance? (p : Position) : Option (Char × Position) :=
  match p.rest with
  | [] => none
  | c :: rest => some (c, { p with before := some c, rest, passed := p.passed + 1 })

def isAt (p : Position) : Place → Bool
  | .lineStart => p.before.all (· == '\n')
  | .lineEnd => p.rest.head?.all (· == '\n')
  | .textStart => p.before.isNone
  | .textEnd => p.rest.isEmpty
  | .wordEdge => p.before.any Text.isWordChar != p.rest.head?.any Text.isWordChar
  | .noWordEdge => p.before.any Text.isWordChar == p.rest.head?.any Text.isWordChar

def record (start : Position) (number : Nat) (stop : Position) : Position :=
  { stop with
    groups := (number, start.rest.take (stop.passed - start.passed)) :: stop.groups }

def skip? (folding : Bool) : Text → Position → Option Position
  | [], p => some p
  | d :: text, p =>
    match p.advance? with
    | some (c, next) => if (CharSet.one d).holds folding c then skip? folding text next else none
    | none => none

end Position

namespace Pattern

/-- One way of going on from a position to a later one, given what has to fit behind it. -/
abbrev Way := Position → (Position → Option Position) → Option Position

def times (way : Way) : Nat → Way
  | 0, p, behind => behind p
  | n + 1, p, behind => way p fun q => times way n q behind

/-- A way taken as often as possible, or as rarely as possible, within a limit if there is one. A
turn that takes no text is not repeated, so there are no more turns than characters in `fuel`, the
text ahead. -/
def upTo (way : Way) (rarely : Bool) (limit : Option Nat) : (fuel : Text) → Way
  | [], p, behind => behind p
  | _ :: fuel, p, behind =>
    if limit == some 0 then behind p
    else
      let once (_ : Unit) := way p fun q =>
        if p.passed < q.passed then upTo way rarely (limit.map (· - 1)) fuel q behind else none
      if rarely then
        match behind p with
        | some found => some found
        | none => once ()
      else
        match once () with
        | some found => some found
        | none => behind p

def fit : Pattern → Way
  | nothing, p, behind => behind p
  | oneOf folding set, p, behind =>
    match p.advance? with
    | some (c, next) => if set.holds folding c then behind next else none
    | none => none
  | place kind, p, behind => if p.isAt kind then behind p else none
  | both first second, p, behind => first.fit p fun q => second.fit q behind
  | either first second, p, behind =>
    match first.fit p behind with
    | some found => some found
    | none => second.fit p behind
  | repeated body least most rarely, p, behind =>
    times body.fit least p fun q =>
      upTo body.fit rarely (most.map (· - least)) q.rest q behind
  | group number body, p, behind => body.fit p fun q => behind (p.record number q)
  | again folding number, p, behind =>
    match p.groups.lookup number with
    | some text => (p.skip? folding text).bind behind
    | none => none
  | ahead expected body, p, behind =>
    if (body.fit p some).isSome == expected then behind p else none
  | settled body, p, behind => (body.fit p some).bind behind

def foundFrom (pattern : Pattern) (before : Option Char) : Text → Bool
  | [] => (pattern.fit ⟨before, [], 0, []⟩ some).isSome
  | c :: rest =>
    (pattern.fit ⟨before, c :: rest, 0, []⟩ some).isSome || foundFrom pattern (some c) rest

def foundIn (pattern : Pattern) (text : Text) : Bool := pattern.foundFrom none text

end Pattern

end SyntaxPaint
