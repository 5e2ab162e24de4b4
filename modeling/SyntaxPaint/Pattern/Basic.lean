import SyntaxPaint.Text.Word

/-!
Patterns that are searched for in a line of text, and the sets of characters that they are made of.
The stand-in library of grammars tells first lines by them.
-/
namespace SyntaxPaint

inductive CharSet where
  | one (c : Char)
  | range (first last : Char)
  | all
  | blank
  | digit
  | word
  | either (a b : CharSet)
  | except (a : CharSet)
  deriving Repr

namespace CharSet

def families : List (List Char) := [['s', 'S', 'ſ'], ['k', 'K', 'K']]

def variants (c : Char) : List Char :=
  match families.find? (·.contains c) with
  | some family => family
  | none => [c, c.toLower, c.toUpper]

def holds (folding : Bool) : CharSet → Char → Bool
  | one d, c => if folding then (variants c).contains d else c == d
  | range first last, c =>
    (if folding then variants c else [c]).any fun v => decide (first ≤ v) && decide (v ≤ last)
  | all, _ => true
  | blank, c => Text.isBlank c
  | digit, c => Text.isDecimalDigit c
  | word, c => Text.isWordChar c
  | either a b, c => a.holds folding c || b.holds folding c
  | except a, c => !a.holds folding c

def inLine : CharSet := except (one '\n')

def union : List CharSet → CharSet
  | [] => except all
  | [a] => a
  | a :: rest => either a (union rest)

end CharSet

inductive Place where
  | lineStart
  | lineEnd
  | textStart
  | textEnd
  /-- Between a word character and another one, or the end of the text next to a word. -/
  | wordEdge
  | noWordEdge
  deriving DecidableEq, Repr

inductive Pattern where
  | nothing
  | oneOf (folding : Bool) (set : CharSet)
  | place (p : Place)
  | both (first second : Pattern)
  | either (first second : Pattern)
  | repeated (body : Pattern) (least : Nat) (most : Option Nat) (rarely : Bool)
  | group (number : Nat) (body : Pattern)
  | again (folding : Bool) (number : Nat)
  | ahead (expected : Bool) (body : Pattern)
  /-- The first way in which the body fits, without trying others. -/
  | settled (body : Pattern)
  deriving Repr

namespace Pattern

def sequence : List Pattern → Pattern
  | [] => nothing
  | [p] => p
  | p :: rest => both p (sequence rest)

def choice : List Pattern → Pattern
  | [] => nothing
  | [p] => p
  | p :: rest => either p (choice rest)

end Pattern

end SyntaxPaint
