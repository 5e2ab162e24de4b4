import SyntaxPaint.Run.Basic
import SyntaxPaint.Text.Basic

/-!
Text for a terminal, and the screen that shows it. Each run is wrapped into the control sequences
that select its style, and a styled run is followed by a reset, so no style reaches beyond its run.
-/
namespace SyntaxPaint.Terminal

def rendition (parameters : Text) : Text := '\x1b' :: '[' :: parameters ++ ['m']

def faceSequence : FontVariant → Text
  | .regular => []
  | .bold => rendition ['1']
  | .italic => rendition ['3']
  | .oblique => rendition ['3']

def colorSequence : Option Color → Text
  | none => []
  | some c =>
    rendition ("38;2;".toList ++ Text.ofNat c.red.toNat ++ ';' :: Text.ofNat c.green.toNat ++
      ';' :: Text.ofNat c.blue.toNat)

def writeRun (content : Text) (a : Attributes) : Text :=
  let style := faceSequence a.font.variant ++ colorSequence a.foreground
  style ++ content ++ (if style.isEmpty then [] else rendition ['0'])

/-- The text in the styles of its runs. Runs that do not lie within the text are left out. -/
def write (t : AttributedText) : Text :=
  t.runs.flatMap fun r =>
    if r.extent.start ≤ t.text.length && r.extent.stop ≤ t.text.length then
      writeRun ((t.text.take r.extent.stop).drop r.extent.start) r.attributes
    else []

structure Pen where
  bold : Bool
  italic : Bool
  foreground : Option (Nat × Nat × Nat)
  deriving DecidableEq, Repr

namespace Pen

def plain : Pen := ⟨false, false, none⟩

def select (pen : Pen) : List Nat → Pen
  | [] => pen
  | 0 :: rest => select plain rest
  | 1 :: rest => select { pen with bold := true } rest
  | 3 :: rest => select { pen with italic := true } rest
  | 38 :: 2 :: red :: green :: blue :: rest =>
    select { pen with foreground := some (red, green, blue) } rest
  | _ :: rest => select pen rest

end Pen

def numbers (parameters : Text) : List Nat :=
  (parameters.splitOnP (· == ';')).map fun part => (Text.natural? part).getD 0

inductive Reception where
  | ready
  | escaped
  | within (parameters : Text)
  deriving DecidableEq, Repr

structure Screen where
  shown : List (Char × Pen)
  pen : Pen
  reception : Reception
  deriving DecidableEq, Repr

namespace Screen

def start : Screen := ⟨[], .plain, .ready⟩

def isParameter (c : Char) : Bool := c.isDigit || c == ';'

/-- One more character. Sequences for anything but renditions do nothing here. -/
def receive (s : Screen) (c : Char) : Screen :=
  if c == '\x1b' then { s with reception := .escaped }
  else
    match s.reception with
    | .ready => { s with shown := s.shown ++ [(c, s.pen)] }
    | .escaped => { s with reception := if c == '[' then .within [] else .ready }
    | .within parameters =>
      if isParameter c then { s with reception := .within (parameters ++ [c]) }
      else if c == 'm' then
        { s with pen := s.pen.select (numbers parameters), reception := .ready }
      else { s with reception := .ready }

def receiveAll (s : Screen) (t : Text) : Screen := t.foldl receive s

end Screen

end SyntaxPaint.Terminal
