import SyntaxPaint.Text.Lines
import SyntaxPaint.Style.Attributes
import SyntaxPaint.Style.Notation

/-!
Runs: stretches of text with one set of attributes. A list of runs is read as a map from positions
to attributes; `encode` gives the shortest such list for given attributes of the single
characters, and `expand` leads back from runs to characters. The run of a position is found by
halving, which assumes nothing: on runs out of order the search still ends, and what it finds
contains the position or is refused.
-/
namespace SyntaxPaint

structure Run where
  extent : Extent
  attributes : Attributes
  deriving Repr

namespace Run

instance : BEq Run := ⟨fun a b => a.extent == b.extent && a.attributes == b.attributes⟩

def between (start stop : Nat) (attributes : Attributes) : Run := ⟨⟨start, stop⟩, attributes⟩

def withStart (r : Run) (start : Nat) : Run := { r with extent := ⟨start, r.extent.stop⟩ }

def withStop (r : Run) (stop : Nat) : Run := { r with extent := ⟨r.extent.start, stop⟩ }

def continuedBy (r next : Run) : Bool :=
  r.extent.stop == next.extent.start && r.attributes == next.attributes

end Run

abbrev Runs := List Run

namespace Runs

/-- The run in front of the others, merged with the first of them where that continues it. The
merged run keeps the attributes of the front. -/
def join (r : Run) : Runs → Runs
  | [] => [r]
  | s :: rest => if r.continuedBy s then r.withStop s.extent.stop :: rest else r :: s :: rest

def mergeAt : Nat → Runs → Runs
  | 0, runs => runs
  | _ + 1, [] => []
  | 1, r :: rest => join r rest
  | i + 2, r :: rest => r :: mergeAt (i + 1) rest

def push (built : Runs) (r : Run) : Runs := mergeAt built.length (built ++ [r])

def coalesce (runs : Runs) : Runs := runs.foldl push []

def cut (pos : Nat) : Runs → Runs × Runs
  | [] => ([], [])
  | r :: rest =>
    if r.extent.stop ≤ pos then
      let (before, after) := cut pos rest
      (r :: before, after)
    else if r.extent.start < pos then ([r.withStop pos], r.withStart pos :: rest)
    else ([], r :: rest)

def shift (removed added : Nat) (runs : Runs) : Runs :=
  runs.map fun r =>
    { r with extent := ⟨r.extent.start + added - removed, r.extent.stop + added - removed⟩ }

def stop (runs : Runs) : Nat := (runs.getLast?.map (·.extent.stop)).getD 0

def single (start : Nat) : List Attributes → Runs
  | [] => []
  | a :: rest => .between start (start + 1) a :: single (start + 1) rest

def encode (labels : List Attributes) : Runs := coalesce (single 0 labels)

def expand (runs : Runs) : List Attributes :=
  runs.flatMap fun r => List.replicate r.extent.length r.attributes

def stopsBy (runs : Runs) (pos i : Nat) : Bool := runs[i]?.any (·.extent.stop ≤ pos)

/-- Halves a section of `size` runs from index `base` until one is left, keeping the upper part
whenever the run at its start stops at or before the position. -/
def narrow (runs : Runs) (pos base size : Nat) : Nat :=
  if size ≤ 1 then base
  else
    let half := size / 2
    if runs.stopsBy pos (base + half) then narrow runs pos (base + half) (size - half)
    else narrow runs pos base (size - half)
termination_by size
decreasing_by all_goals omega

def firstBehind (runs : Runs) (pos : Nat) : Nat :=
  let i := narrow runs pos 0 runs.length
  if runs.stopsBy pos i then i + 1 else i

def at? (runs : Runs) (pos : Nat) : Option Run :=
  runs[runs.firstBehind pos]?.filter (·.extent.contains pos)

end Runs

structure AttributedText where
  text : Text
  runs : Runs
  deriving Repr

namespace AttributedText

def empty : AttributedText := ⟨[], []⟩

instance : BEq AttributedText := ⟨fun a b => a.text == b.text && a.runs == b.runs⟩

def length (t : AttributedText) : Nat := t.runs.stop

def toJson (t : AttributedText) : Json :=
  let run (r : Run) : Json :=
    .object [
      ("range".toList, .object [("start".toList, .ofNat r.extent.start),
        ("end".toList, .ofNat r.extent.stop)]),
      ("attributes".toList, r.attributes.toJson)]
  .object [("text".toList, .ofText t.text), ("runs".toList, .array (t.runs.map run))]

end AttributedText

end SyntaxPaint
