import SyntaxPaint.Engine.Basic
import SyntaxPaint.Markup.Reference
import SyntaxPaint.Markup.Token
import SyntaxPaint.Run.Basic
import SyntaxPaint.Theme.Basic

/-!
From markup to text with runs: the tokens give each piece of text the attributes of the scopes
around it, and then the character references are replaced, which moves the ends of the runs.
-/
namespace SyntaxPaint.Markup

/-- The stack of scopes after a token, outermost first. Closing tags never take the scope of the
document away. -/
def nextStack (stack : List Text) : Token → List Text
  | .opening classes => stack ++ [classes]
  | .closing => if 1 < stack.length then stack.dropLast else stack
  | .text _ => stack

def segments (style : List Text → Attributes) (stack : List Text) :
    List Token → List (Text × Attributes)
  | [] => []
  | .text content :: rest => (content, style stack) :: segments style stack rest
  | token :: rest => segments style (nextStack stack token) rest

def segmentRuns (start : Nat) : List (Text × Attributes) → Runs
  | [] => []
  | (t, a) :: rest => .between start (start + t.length) a :: segmentRuns (start + t.length) rest

def references (position : Nat) : List (Char × Nat) → List Extent
  | [] => []
  | (_, n) :: rest =>
    if n == 1 then references (position + 1) rest
    else ⟨position, position + n⟩ :: references (position + n) rest

/-- Leads from positions in the encoded text to positions in the decoded one. `ahead` holds the
references that no position has passed yet, `shift` how many characters those before them lose. -/
structure Remapper where
  ahead : List Extent
  shift : Nat

/-- The decoded position of an encoded one, and the remapper for the positions from there on. A
position inside a reference is taken for the start of the reference. -/
def Remapper.move (position shift : Nat) : List Extent → Nat × Remapper
  | [] => (position - shift, ⟨[], shift⟩)
  | e :: ahead =>
    if e.stop ≤ position then move position (shift + (e.length - 1)) ahead
    else if e.start < position then (e.start - shift, ⟨e :: ahead, shift⟩)
    else (position - shift, ⟨e :: ahead, shift⟩)

def Remapper.map (m : Remapper) (position : Nat) : Nat × Remapper :=
  Remapper.move position m.shift m.ahead

def moveRuns (m : Remapper) : Runs → Runs
  | [] => []
  | r :: rest =>
    let (start, m) := m.map r.extent.start
    let (stop, m) := m.map r.extent.stop
    if stop ≤ start then moveRuns m rest else .between start stop r.attributes :: moveRuns m rest

def decode (t : Text) (runs : Runs) : AttributedText :=
  let decoded := Reference.decode t
  let replaced := references 0 decoded
  { text := decoded.map (·.1)
    runs := if replaced.isEmpty then runs else (moveRuns ⟨replaced, 0⟩ runs).coalesce }

/-- The text and the runs that markup stands for under a theme. -/
def attributed (theme : Theme) (markup : Text) : Except HighlightError AttributedText :=
  match tokens 0 markup with
  | .error offset => .error (.unterminatedTag offset)
  | .ok ts =>
    let pieces := segments theme.resolve [documentClass] ts
    .ok (decode (pieces.flatMap (·.1)) (segmentRuns 0 pieces).coalesce)

end SyntaxPaint.Markup
