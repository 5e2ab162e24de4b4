import SyntaxPaint.Pattern.Basic
import SyntaxPaint.Text.Bytes

/-!
Reading patterns. Groups that are still open lie on a stack, each with what was read of it; a
closing parenthesis turns the innermost one into an item of the group around it.
-/
namespace SyntaxPaint.Pattern

structure Mode where
  extended : Bool
  folding : Bool
  acrossLines : Bool
  deriving Repr

inductive Opening where
  | plain
  | numbered (number : Nat)
  | ahead (expected : Bool)
  | settled
  | mode
  deriving Repr

/-- A group that is being read: what goes before, with the last items first. -/
structure Level where
  opening : Opening
  outer : Mode
  alternatives : List Pattern
  items : List Pattern
  deriving Repr

structure Progress where
  levels : List Level
  innermost : Level
  mode : Mode
  groups : Nat
  deriving Repr

namespace Level

def pattern (l : Level) : Pattern :=
  let body := choice ((sequence l.items.reverse :: l.alternatives).reverse)
  match l.opening with
  | .plain | .mode => body
  | .numbered number => group number body
  | .ahead expected => ahead expected body
  | .settled => settled body

end Level

namespace Progress

def add (s : Progress) (item : Pattern) : Progress :=
  { s with innermost := { s.innermost with items := item :: s.innermost.items } }

def enter (s : Progress) (opening : Opening) (mode : Mode) : Progress :=
  { s with
    levels := s.innermost :: s.levels
    innermost := ⟨opening, s.mode, [], []⟩
    mode }

def leaveModes (innermost : Level) : List Level → Level × List Level
  | [] => (innermost, [])
  | outer :: levels =>
    match innermost.opening with
    | .mode => leaveModes { outer with items := innermost.pattern :: outer.items } levels
    | _ => (innermost, outer :: levels)

def leave? (s : Progress) : Option Progress :=
  match leaveModes s.innermost s.levels with
  | (_, []) => none
  | (ended, outer :: levels) =>
    some { s with
      levels
      innermost := { outer with items := ended.pattern :: outer.items }
      mode := ended.outer }

def branch (s : Progress) : Progress :=
  { s with
    innermost := { s.innermost with
      alternatives := sequence s.innermost.items.reverse :: s.innermost.alternatives
      items := [] } }

def changeLast? (s : Progress) (change : Pattern → Pattern) : Option Progress :=
  match s.innermost.items with
  | [] => none
  | last :: items => some { s with innermost := { s.innermost with items := change last :: items } }

def finish? (s : Progress) : Option Pattern :=
  match leaveModes s.innermost s.levels with
  | (whole, []) => some whole.pattern
  | _ => none

end Progress

def controls : List (Char × Char) :=
  [('n', '\n'), ('t', '\t'), ('r', '\r'), ('f', '\x0c'), ('v', '\x0b'), ('a', '\x07'),
    ('e', '\x1b')]

def readEscape : Text → Option (CharSet × Text)
  | [] => none
  | c :: t =>
    let hex : CharSet := .union [.range '0' '9', .range 'a' 'f', .range 'A' 'F']
    match c with
    | 'w' => some (.word, t)
    | 'W' => some (.except .word, t)
    | 'd' => some (.digit, t)
    | 'D' => some (.except .digit, t)
    | 's' => some (.blank, t)
    | 'S' => some (.except .blank, t)
    | 'h' => some (hex, t)
    | 'H' => some (.except hex, t)
    | 'x' => ((Text.hexadecimal? (t.take 2)).bind Text.scalar?).map fun d => (.one d, t.drop 2)
    | 'u' => ((Text.hexadecimal? (t.take 4)).bind Text.scalar?).map fun d => (.one d, t.drop 4)
    | c => some (.one ((controls.lookup c).getD c), t)

def readMember : Text → Option (CharSet × Text)
  | '\\' :: t => readEscape t
  | '[' :: _ => none
  | c :: t => some (.one c, t)
  | [] => none

def readRange (t : Text) : Option (CharSet × Text) := do
  let (first, t) ← readMember t
  match first, t with
  | .one a, '-' :: c :: t =>
    if c == ']' then pure (.one a, '-' :: c :: t)
    else
      match ← readMember (c :: t) with
      | (.one b, t) => if a ≤ b then pure (.range a b, t) else none
      | _ => none
  | set, t => pure (set, t)

def readMembers : Nat → Text → Option (List CharSet × Text)
  | 0, _ => none
  | _ + 1, ']' :: t => some ([], t)
  | fuel + 1, t => do
    let (set, t) ← readRange t
    let (sets, t) ← readMembers fuel t
    pure (set :: sets, t)

def readSet (t : Text) : Option (CharSet × Text) :=
  let (negated, t) := match t with
    | '^' :: t => (true, t)
    | t => (false, t)
  let (first, t) := match t with
    | ']' :: t => ([CharSet.one ']'], t)
    | t => ([], t)
  (readMembers t.length t).map fun r =>
    let set := CharSet.union (first ++ r.1)
    (if negated then .except set else set, r.2)

def readBounds (t : Text) : Option ((Nat × Option Nat) × Text) := do
  let inside := t.takeWhile (· != '\x7d')
  let rest := t.drop (inside.length + 1)
  if inside.length == t.length then none
  else
    match inside.splitOnP (· == ',') with
    | [exactly] =>
      let n ← Text.natural? exactly
      pure ((n, some n), rest)
    | [least, most] =>
      match Text.natural? least, Text.natural? most with
      | some least, some most => if least ≤ most then pure ((least, some most), rest) else none
      | some least, none => if most.isEmpty then pure ((least, none), rest) else none
      | none, some most => if least.isEmpty then pure ((0, some most), rest) else none
      | none, none => none
    | _ => none

def repeatLast? (s : Progress) (least : Nat) (most : Option Nat) : Text → Option (Progress × Text)
  | '?' :: t => (s.changeLast? fun p => repeated p least most true).map (·, t)
  | '+' :: t => (s.changeLast? fun p => settled (repeated p least most false)).map (·, t)
  | t => (s.changeLast? fun p => repeated p least most false).map (·, t)

def switch (mode : Mode) (value : Bool) : Text → Mode
  | [] => mode
  | '-' :: letters => switch mode false letters
  | c :: letters =>
    switch (match c with
      | 'x' => { mode with extended := value }
      | 'i' => { mode with folding := value }
      | 'm' => { mode with acrossLines := value }
      | _ => mode) value letters

def readOpening (s : Progress) : Text → Option (Progress × Text)
  | ':' :: t => some (s.enter .plain s.mode, t)
  | '=' :: t => some (s.enter (.ahead true) s.mode, t)
  | '!' :: t => some (s.enter (.ahead false) s.mode, t)
  | '>' :: t => some (s.enter .settled s.mode, t)
  | '#' :: t => some (s, (t.dropWhile (· != ')')).drop 1)
  | t =>
    let letters := t.takeWhile fun c => c == 'i' || c == 'm' || c == 'x' || c == '-'
    let mode := switch s.mode true letters
    match t.drop letters.length with
    | ')' :: t => some (s.enter .mode mode, t)
    | ':' :: t => some (s.enter .plain mode, t)
    | _ => none

def readItem (s : Progress) : Text → Option (Progress × Text)
  | 'b' :: t => some (s.add (place .wordEdge), t)
  | 'B' :: t => some (s.add (place .noWordEdge), t)
  | 'A' :: t => some (s.add (place .textStart), t)
  | 'z' :: t => some (s.add (place .textEnd), t)
  | 'Z' :: t => some (s.add (place .textEnd), t)
  | c :: t =>
    if '1' ≤ c ∧ c ≤ '9' then some (s.add (again s.mode.folding (c.toNat - '0'.toNat)), t)
    else (readEscape (c :: t)).map fun r => (s.add (oneOf s.mode.folding r.1), r.2)
  | [] => none

def readNext (s : Progress) (c : Char) (t : Text) : Option (Progress × Text) :=
  if s.mode.extended && Text.isBlank c then some (s, t)
  else if s.mode.extended && c == '#' then some (s, t.dropWhile (· != '\n'))
  else
    match c with
    | '(' =>
      match t with
      | '?' :: t => readOpening s t
      | t => some ({ s with groups := s.groups + 1 }.enter (.numbered (s.groups + 1)) s.mode, t)
    | ')' => s.leave?.map (·, t)
    | '|' => some (s.branch, t)
    | '^' => some (s.add (place .lineStart), t)
    | '$' => some (s.add (place .lineEnd), t)
    | '.' => some (s.add (oneOf false (if s.mode.acrossLines then .all else .inLine)), t)
    | '[' => (readSet t).map fun r => (s.add (oneOf s.mode.folding r.1), r.2)
    | '\\' => readItem s t
    | '*' => repeatLast? s 0 none t
    | '+' => repeatLast? s 1 none t
    | '?' => repeatLast? s 0 (some 1) t
    | c =>
      match if c == '\x7b' then readBounds t else none with
      | some ((least, most), t) => repeatLast? s least most t
      | none => some (s.add (oneOf s.mode.folding (.one c)), t)

def readAll : Nat → Progress → Text → Option Pattern
  | _, s, [] => s.finish?
  | 0, _, _ :: _ => none
  | fuel + 1, s, c :: t => (readNext s c t).bind fun r => readAll fuel r.1 r.2

/-- Reads a pattern. Every step takes at least one character, so the length of the text bounds their
number. -/
def read? (t : Text) : Option Pattern :=
  let mode : Mode := ⟨false, false, false⟩
  readAll t.length ⟨[], ⟨.plain, mode, [], []⟩, mode, 0⟩ t

end SyntaxPaint.Pattern
