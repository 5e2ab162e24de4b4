import SyntaxPaint.Run.Basic
import SyntaxPaint.Text.Lines

/-!
Editable text with attributes for every character. The runs of a buffer always cover its text
without gaps, and neighbours differ.
-/
namespace SyntaxPaint

inductive EditKind where
  | characters
  | attributes
  deriving DecidableEq, Repr

structure EditRecord where
  kind : EditKind
  extent : Extent
  replacementLength : Nat
  deriving DecidableEq, Repr

namespace EditRecord

def change (r : EditRecord) : Int := r.replacementLength - r.extent.length

def edited (r : EditRecord) : Extent := ⟨r.extent.start, r.extent.start + r.replacementLength⟩

end EditRecord

/-- A text, its runs, the attributes of text that is typed into an empty buffer, and a counter of
the changes. -/
structure TextBuffer where
  text : Text
  runs : Runs
  defaults : Attributes
  revision : UInt64
  deriving Repr

namespace TextBuffer

def ofText (text : Text) (attributes : Attributes) : TextBuffer :=
  { text
    runs := if text.isEmpty then [] else [.between 0 text.length attributes]
    defaults := attributes
    revision := 0 }

def standard : TextBuffer := ofText [] (.plain .standard)

def length (b : TextBuffer) : Nat := b.text.length

def slice (b : TextBuffer) (e : Extent) : Text := (b.text.take e.stop).drop e.start

def runAt? (b : TextBuffer) (pos : Nat) : Option Run := b.runs.at? pos

def withDefaults (b : TextBuffer) (attributes : Attributes) : TextBuffer :=
  { b with defaults := attributes }

def paragraph (b : TextBuffer) (e : Extent) : Extent := b.text.wholeLines e

def styled (b : TextBuffer) : List (Char × Attributes) := b.text.zip b.runs.expand

end TextBuffer

end SyntaxPaint
