import SyntaxPaint.Buffer.Basic

/-!
The edits of a buffer. Each one cuts the runs where the edit starts and stops, puts other runs in
between and merges across the two seams alone; an edit that changes nothing leaves no record.
-/
namespace SyntaxPaint

namespace Runs

def splice (runs : Runs) (e : Extent) (count : Nat) (attributes : Attributes) : Runs :=
  let (before, rest) := runs.cut e.start
  let (_, after) := Runs.cut e.stop rest
  let moved := shift e.length count after
  if count == 0 then mergeAt before.length (before ++ moved)
  else
    let inserted := Run.between e.start (e.start + count) attributes
    mergeAt before.length (mergeAt (before.length + 1) (before ++ inserted :: moved))

def copy (gap : Extent) (built : Runs) : Runs → Runs × Runs
  | [] => (built, [])
  | r :: old =>
    if r.extent.start < gap.stop then
      let piece : Run :=
        .between (max r.extent.start gap.start) (min r.extent.stop gap.stop) r.attributes
      if gap.stop < r.extent.stop then (built.push piece, r :: old)
      else copy gap (built.push piece) old
    else (built, r :: old)

def fillGap (gap : Extent) (built old : Runs) : Runs × Runs :=
  if gap.isEmpty then (built, old)
  else copy gap built (old.dropWhile (·.extent.stop ≤ gap.start))

/-- Builds on from `cursor` up to `stop` with the placed runs, and with the old ones wherever there
is a gap between those. -/
def rebuild (stop cursor : Nat) (built old : Runs) : Runs → Runs
  | [] => (fillGap ⟨cursor, stop⟩ built old).1
  | p :: placed =>
    let (built, old) := fillGap ⟨cursor, p.extent.start⟩ built old
    rebuild stop p.extent.stop (built.push p) old placed

def overlay (runs : Runs) (window : Extent) (placed : Runs) : Runs :=
  let (before, rest) := runs.cut window.start
  let (old, after) := Runs.cut window.stop rest
  let rebuilt := rebuild window.stop window.start [] old placed
  mergeAt before.length
    (mergeAt (before.length + rebuilt.length) (before ++ (rebuilt ++ after)))

/-- The runs moved by `origin` and cut down to what lies within the first `len` positions and not
before `cursor`. Each run that is left moves the cursor to its end. -/
def place (origin len : Nat) (cursor : Nat) : Runs → Runs
  | [] => []
  | r :: rest =>
    let start := max (origin + r.extent.start) cursor
    let stop := min (origin + r.extent.stop) len
    if stop ≤ start then place origin len cursor rest
    else .between start stop r.attributes :: place origin len stop rest

end Runs

namespace TextBuffer

/-- The attributes of characters that replace those from `start` to `stop`: those of the first
replaced character, else of the one before, else of the one behind, else the default. -/
def inherited (b : TextBuffer) (start stop : Nat) : Attributes :=
  let source :=
    if start < stop then some start
    else if 0 < start then some (start - 1)
    else if start < b.length then some start
    else none
  ((source.bind b.runAt?).map (·.attributes)).getD b.defaults

def replace (b : TextBuffer) (e : Extent) (text : Text) : Option (EditRecord × TextBuffer) :=
  let e := e.clamp b.length
  if e.isEmpty && text.isEmpty then none
  else
    some (⟨.characters, e, text.length⟩,
      { b with
        text := b.text.take e.start ++ text ++ b.text.drop e.stop
        runs := b.runs.splice e text.length (b.inherited e.start e.stop)
        revision := b.revision + 1 })

def setAttributes (b : TextBuffer) (e : Extent) (attributes : Attributes) :
    Option (EditRecord × TextBuffer) :=
  let e := e.clamp b.length
  if e.isEmpty then none
  else
    some (⟨.attributes, e, e.length⟩,
      { b with
        runs := b.runs.splice e e.length attributes
        revision := b.revision + 1 })

/-- Paints runs that start at `origin` onto the buffer, as one edit. Of a run only the part counts
that lies in the buffer and behind the runs painted before it. -/
def paint (b : TextBuffer) (origin : Nat) (runs : Runs) : Option (EditRecord × TextBuffer) :=
  let placed := Runs.place origin b.length 0 runs
  match placed.head?, placed.getLast? with
  | some first, some last =>
    let e : Extent := ⟨first.extent.start, last.extent.stop⟩
    some (⟨.attributes, e, e.length⟩,
      { b with
        runs := b.runs.overlay e placed
        revision := b.revision + 1 })
  | _, _ => none

end TextBuffer

inductive BufferChange where
  | replace (extent : Extent) (text : Text)
  | setAttributes (extent : Extent) (attributes : Attributes)
  | paint (origin : Nat) (runs : Runs)
  | setDefaults (attributes : Attributes)

namespace TextBuffer

def change (b : TextBuffer) : BufferChange → TextBuffer
  | .replace e text => ((b.replace e text).map (·.2)).getD b
  | .setAttributes e attributes => ((b.setAttributes e attributes).map (·.2)).getD b
  | .paint origin runs => ((b.paint origin runs).map (·.2)).getD b
  | .setDefaults attributes => b.withDefaults attributes

def changeAll (b : TextBuffer) (changes : List BufferChange) : TextBuffer := changes.foldl change b

end TextBuffer

end SyntaxPaint
