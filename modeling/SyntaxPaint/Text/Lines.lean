import SyntaxPaint.Text.Basic

/-!
Stretches of a text and its lines. Nothing forces the stop of an extent to lie at or after its
start: one that comes from outside may be reversed or reach past the end, and `clamp` is how a text
of a given length understands it. A line ends with a line feed, a carriage return, the two of them
together, a vertical tab, a form feed, U+0085, U+2028 or U+2029; after the last terminator there is
always one more line, which may be empty. `isLineStart_iff` says which positions are line starts by
looking at their neighbours alone.
-/
namespace SyntaxPaint

/-- The positions from `start` up to, and without, `stop`. -/
structure Extent where
  start : Nat
  stop : Nat
  deriving DecidableEq, Repr

namespace Extent

def length (e : Extent) : Nat := e.stop - e.start

def isEmpty (e : Extent) : Bool := e.stop ≤ e.start

def contains (e : Extent) (i : Nat) : Bool := e.start ≤ i && i < e.stop

instance : Membership Nat Extent := ⟨fun e i => e.start ≤ i ∧ i < e.stop⟩

theorem mem_def {e : Extent} {i : Nat} : i ∈ e ↔ e.start ≤ i ∧ i < e.stop := Iff.rfl

theorem contains_iff {e : Extent} {i : Nat} : e.contains i = true ↔ i ∈ e := by
  simp [contains, mem_def]

/-- The extent within a text of `len` characters: both ends are moved down to the length, and a
reversed extent becomes the empty one at its start. -/
def clamp (len : Nat) (e : Extent) : Extent :=
  ⟨min e.start len, max (min e.stop len) (min e.start len)⟩

theorem clamp_le (len : Nat) (e : Extent) :
    (e.clamp len).start ≤ (e.clamp len).stop ∧ (e.clamp len).stop ≤ len := by
  simp only [clamp]
  omega

end Extent

namespace Text

def isTerminator (c : Char) : Bool :=
  c == '\n' || c == '\r' || c == '\x0b' || c == '\x0c' || c == '\u0085' || c == '\u2028' ||
    c == '\u2029'

def breaks (pos : Nat) : Text → List Nat
  | [] => []
  | c :: t =>
    if isTerminator c && !(c == '\r' && t.head? == some '\n') then (pos + 1) :: breaks (pos + 1) t
    else breaks (pos + 1) t

def lineStarts (t : Text) : List Nat := 0 :: breaks 0 t

def lineNumber (t : Text) (pos : Nat) : Nat := (breaks 0 t).countP (· ≤ pos)

def lineStart (t : Text) (line : Nat) : Nat := t.lineStarts[line]?.getD t.length

/-- The extent of whole lines, terminators included, around the clamped extent. An extent without
positions takes the line that it stands in. -/
def wholeLines (t : Text) (e : Extent) : Extent :=
  let e := e.clamp t.length
  let last := if e.start < e.stop then e.stop - 1 else e.start
  let next := t.lineNumber (min last t.length) + 1
  let stop := if next < t.lineStarts.length then t.lineStart next else t.length
  { start := t.lineStart (t.lineNumber e.start)
    stop := max stop e.stop }

/-- A position where a line starts: the start of the text, or behind a terminator, but not
between a carriage return and the line feed that belongs to it. -/
def IsLineStart (t : Text) (p : Nat) : Prop :=
  p = 0 ∨ ∃ c, 0 < p ∧ t[p - 1]? = some c ∧ isTerminator c = true ∧
    ¬(c = '\r' ∧ t[p]? = some '\n')

theorem mem_breaks {t : Text} {pos p : Nat} :
    p ∈ breaks pos t ↔ ∃ i c, p = pos + i + 1 ∧ t[i]? = some c ∧ isTerminator c = true ∧
      ¬(c = '\r' ∧ t[i + 1]? = some '\n') := by
  induction t generalizing pos with
  | nil => simp [breaks]
  | cons d t ih =>
    have tail : p ∈ breaks (pos + 1) t ↔ ∃ i c, p = pos + (i + 1) + 1 ∧ (d :: t)[i + 1]? = some c ∧
        isTerminator c = true ∧ ¬(c = '\r' ∧ (d :: t)[i + 1 + 1]? = some '\n') := by
      rw [ih]
      constructor
      · rintro ⟨i, c, h, rest⟩
        exact ⟨i, c, by omega, by simpa using rest⟩
      · rintro ⟨i, c, h, rest⟩
        exact ⟨i, c, by omega, by simpa using rest⟩
    have head : (isTerminator d && !(d == '\r' && t.head? == some '\n')) = true ↔
        isTerminator d = true ∧ ¬(d = '\r' ∧ (d :: t)[0 + 1]? = some '\n') := by
      cases t <;> by_cases hd : d = '\r' <;> simp [hd]
    rw [breaks]
    constructor
    · intro h
      split at h
      · next hd =>
        rcases List.mem_cons.1 h with rfl | h
        · exact ⟨0, d, by omega, rfl, head.1 hd⟩
        · obtain ⟨i, c, rest⟩ := tail.1 h
          exact ⟨i + 1, c, rest⟩
      · obtain ⟨i, c, rest⟩ := tail.1 h
        exact ⟨i + 1, c, rest⟩
    · rintro ⟨i, c, hp, hc, rest⟩
      cases i with
      | zero =>
        obtain rfl : d = c := by simpa using hc
        rw [if_pos (head.2 rest)]
        exact List.mem_cons.2 (Or.inl (by omega))
      | succ i =>
        have := tail.2 ⟨i, c, hp, hc, rest⟩
        split
        · exact List.mem_cons.2 (Or.inr this)
        · exact this

theorem isLineStart_iff {t : Text} {p : Nat} : p ∈ t.lineStarts ↔ IsLineStart t p := by
  rw [lineStarts, List.mem_cons, mem_breaks, IsLineStart]
  constructor
  · rintro (rfl | ⟨i, c, rfl, h⟩)
    · exact Or.inl rfl
    · exact Or.inr ⟨c, by omega, by simpa using h⟩
  · rintro (rfl | ⟨c, hp, h⟩)
    · exact Or.inl rfl
    · refine Or.inr ⟨p - 1, c, by omega, ?_⟩
      rwa [Nat.sub_add_cancel hp]

end Text

end SyntaxPaint
