import SyntaxPaint.Text.Lines
import Mathlib.Order.Bounds.Basic

/-!
Lines by their numbers. The starts of the lines ascend, so the line of a position starts at the
greatest of them that is not behind it, and the next line at the least one that is. Whole lines
around an extent are read off from these two facts.
-/
namespace SyntaxPaint.Text

theorem breaks_bounds {t : Text} {pos p : Nat} (member : p ∈ breaks pos t) :
    pos < p ∧ p ≤ pos + t.length := by
  obtain ⟨i, c, rfl, found, _⟩ := mem_breaks.mp member
  have inside := (List.getElem?_eq_some_iff.mp found).1
  omega

theorem breaks_ascending (t : Text) (pos : Nat) : (breaks pos t).Pairwise (· < ·) := by
  induction t generalizing pos with
  | nil => exact List.Pairwise.nil
  | cons c t ih =>
    rw [breaks]
    split
    · exact List.pairwise_cons.mpr ⟨fun p later => (breaks_bounds later).1, ih (pos + 1)⟩
    · exact ih (pos + 1)

theorem lineStarts_ascending (t : Text) : t.lineStarts.Pairwise (· < ·) :=
  List.pairwise_cons.mpr ⟨fun _ later => (breaks_bounds later).1, breaks_ascending t 0⟩

theorem lineStart_le {t : Text} {p : Nat} (start : IsLineStart t p) : p ≤ t.length := by
  rcases List.mem_cons.mp (isLineStart_iff.mpr start) with rfl | later
  · exact Nat.zero_le _
  · have bound := (breaks_bounds later).2
    omega

theorem getElem_le_iff {l : List Nat} (ascending : l.Pairwise (· < ·)) (limit : Nat) {i : Nat}
    (inside : i < l.length) : l[i] ≤ limit ↔ i < l.countP (· ≤ limit) := by
  induction l generalizing i with
  | nil => cases inside
  | cons a l ih =>
    obtain ⟨first, rest⟩ := List.pairwise_cons.mp ascending
    by_cases low : a ≤ limit
    · rw [List.countP_cons_of_pos (by simpa using low)]
      cases i with
      | zero => simpa using low
      | succ i =>
        rw [List.getElem_cons_succ, Nat.succ_lt_succ_iff]
        exact ih rest (Nat.lt_of_succ_lt_succ inside)
    · have none : (a :: l).countP (· ≤ limit) = 0 := by
        rw [List.countP_eq_zero]
        intro b member
        rcases List.mem_cons.mp member with rfl | later
        · simpa using low
        · have above := first b later
          simp only [decide_eq_true_eq]
          omega
      have least : a ≤ (a :: l)[i] := by
        cases i with
        | zero => exact Nat.le_refl a
        | succ i => exact Nat.le_of_lt (first _ (List.getElem_mem _))
      omega

theorem countP_lineStarts (t : Text) (pos : Nat) :
    t.lineStarts.countP (· ≤ pos) = t.lineNumber pos + 1 :=
  List.countP_cons_of_pos (by simp)

theorem lineNumber_lt (t : Text) (pos : Nat) : t.lineNumber pos < t.lineStarts.length := by
  have bound := List.countP_le_length (p := (decide <| · ≤ pos)) (l := t.lineStarts)
  rw [countP_lineStarts] at bound
  omega

theorem lineStart_eq {t : Text} {line : Nat} (inside : line < t.lineStarts.length) :
    t.lineStart line = t.lineStarts[line] := by
  unfold lineStart
  rw [List.getElem?_eq_getElem inside]
  rfl

theorem lineStart_le_iff {t : Text} {line : Nat} (inside : line < t.lineStarts.length) (pos : Nat) :
    t.lineStart line ≤ pos ↔ line ≤ t.lineNumber pos := by
  rw [lineStart_eq inside, getElem_le_iff (lineStarts_ascending t), countP_lineStarts,
    Nat.lt_succ_iff]

theorem lineStart_mono {t : Text} {line other : Nat} (order : line ≤ other)
    (inside : other < t.lineStarts.length) : t.lineStart line ≤ t.lineStart other := by
  rw [lineStart_eq inside, lineStart_eq (by omega)]
  rcases Nat.eq_or_lt_of_le order with rfl | before
  · exact Nat.le_refl _
  · exact Nat.le_of_lt (List.pairwise_iff_getElem.mp (lineStarts_ascending t) _ _ _ _ before)

theorem isLineStart_iff_exists {t : Text} {p : Nat} :
    IsLineStart t p ↔ ∃ line, line < t.lineStarts.length ∧ p = t.lineStart line := by
  rw [← isLineStart_iff, List.mem_iff_getElem]
  constructor
  · rintro ⟨line, inside, rfl⟩
    exact ⟨line, inside, (lineStart_eq inside).symm⟩
  · rintro ⟨line, inside, rfl⟩
    exact ⟨line, inside, (lineStart_eq inside).symm⟩

theorem lineStart_greatest (t : Text) (pos : Nat) :
    IsGreatest {p | IsLineStart t p ∧ p ≤ pos} (t.lineStart (t.lineNumber pos)) := by
  have here := lineNumber_lt t pos
  constructor
  · exact ⟨isLineStart_iff_exists.mpr ⟨_, here, rfl⟩,
      (lineStart_le_iff here pos).mpr (Nat.le_refl _)⟩
  · rintro p ⟨start, before⟩
    obtain ⟨line, inside, rfl⟩ := isLineStart_iff_exists.mp start
    exact lineStart_mono ((lineStart_le_iff inside pos).mp before) here

/-- What stands for the least line start behind a position: it, or the end of the text where there
is none. -/
theorem lineStart_next (t : Text) (pos : Nat) :
    let next := t.lineNumber pos + 1
    let stop := if next < t.lineStarts.length then t.lineStart next else t.length
    let behind := {p | IsLineStart t p ∧ pos < p}
    IsLeast behind stop ∨ behind = ∅ ∧ stop = t.length := by
  intro next stop behind
  have later {line : Nat} (inside : line < t.lineStarts.length) :
      pos < t.lineStart line ↔ next ≤ line := by
    rw [← Nat.not_le, lineStart_le_iff inside, Nat.not_le]
    rfl
  by_cases inside : next < t.lineStarts.length
  · left
    have found : stop = t.lineStart next := if_pos inside
    rw [found]
    constructor
    · exact ⟨isLineStart_iff_exists.mpr ⟨_, inside, rfl⟩, (later inside).mpr (Nat.le_refl _)⟩
    · rintro p ⟨start, order⟩
      obtain ⟨line, inside', rfl⟩ := isLineStart_iff_exists.mp start
      exact lineStart_mono ((later inside').mp order) inside'
  · right
    refine ⟨Set.eq_empty_iff_forall_notMem.mpr ?_, if_neg inside⟩
    rintro p ⟨start, order⟩
    obtain ⟨line, inside', rfl⟩ := isLineStart_iff_exists.mp start
    have last := (later inside').mp order
    omega

/- Whole lines. -/

def stops (t : Text) (e : Extent) : Set Nat := {p | IsLineStart t p ∧ e.stop ≤ p ∧ e.start < p}

/-- The smallest extent of whole lines around another one, which lies in the text. -/
structure Hull (t : Text) (e lines : Extent) : Prop where
  start : IsGreatest {p | IsLineStart t p ∧ p ≤ e.start} lines.start
  stop : IsLeast (stops t e) lines.stop ∨ stops t e = ∅ ∧ lines.stop = t.length

theorem hull_unique {t : Text} {e lines other : Extent} (hull : Hull t e lines)
    (hull' : Hull t e other) : lines = other := by
  have start := hull.start.unique hull'.start
  have stop : lines.stop = other.stop := by
    rcases hull.stop with least | ⟨none, last⟩
    · rcases hull'.stop with least' | ⟨none, _⟩
      · exact least.unique least'
      · exact absurd least.1 (none ▸ Set.notMem_empty _)
    · rcases hull'.stop with least | ⟨_, last'⟩
      · exact absurd least.1 (none ▸ Set.notMem_empty _)
      · exact last.trans last'.symm
  cases lines
  cases other
  exact (Extent.mk.injEq _ _ _ _).mpr ⟨start, stop⟩

theorem Hull.stop_bounds {t : Text} {e lines : Extent} (hull : Hull t e lines)
    (inside : e.stop ≤ t.length) :
    e.stop ≤ lines.stop ∧ lines.stop ≤ t.length ∧
      (IsLineStart t lines.stop ∨ lines.stop = t.length) := by
  rcases hull.stop with ⟨⟨start, order, _⟩, _⟩ | ⟨_, last⟩
  · exact ⟨order, lineStart_le start, Or.inl start⟩
  · exact ⟨by omega, by omega, Or.inr last⟩

theorem Hull.of_lines {t : Text} {e lines : Extent} (hull : Hull t e lines)
    (inside : e.stop ≤ t.length) : Hull t lines lines := by
  obtain ⟨start, early⟩ := hull.start.1
  have order := (hull.stop_bounds inside).1
  refine ⟨⟨⟨start, Nat.le_refl _⟩, fun p before => before.2⟩, ?_⟩
  rcases hull.stop with ⟨⟨here, _, behind⟩, _⟩ | ⟨none, last⟩
  · left
    have some : lines.start < lines.stop := Nat.lt_of_le_of_lt early behind
    exact ⟨⟨here, Nat.le_refl _, some⟩, fun p later => later.2.1⟩
  · right
    refine ⟨Set.eq_empty_iff_forall_notMem.mpr ?_, last⟩
    rintro p ⟨start', late, behind⟩
    -- a start between that of the extent and the lines would be an earlier start of the lines
    have beyond : e.start < p := by
      by_contra before
      have latest := hull.start.2 ⟨start', Nat.le_of_not_lt before⟩
      omega
    have member : p ∈ stops t e := ⟨start', Nat.le_trans order late, beyond⟩
    exact absurd member (none ▸ Set.notMem_empty p)

theorem hull_wholeLines (t : Text) (e : Extent) :
    Hull t (e.clamp t.length) (t.wholeLines e) := by
  obtain ⟨order, inside⟩ := e.clamp_le t.length
  unfold wholeLines
  generalize e.clamp t.length = e at order inside
  -- the position that the last line has to cover
  let last := if e.start < e.stop then e.stop - 1 else e.start
  have behind (p : Nat) : last < p ↔ e.stop ≤ p ∧ e.start < p := by
    simp only [last]
    split <;> omega
  have within : min last t.length = last := by
    simp only [last]
    split <;> omega
  have same : stops t e = {p | IsLineStart t p ∧ last < p} := by
    simp only [stops, behind]
  refine ⟨lineStart_greatest t e.start, ?_⟩
  have next := lineStart_next t last
  rw [same]
  dsimp only at next ⊢
  rw [show (if e.start < e.stop then e.stop - 1 else e.start) = last from rfl, within]
  generalize (if t.lineNumber last + 1 < t.lineStarts.length then
    t.lineStart (t.lineNumber last + 1) else t.length) = stop at next
  have late : e.stop ≤ stop := by
    rcases next with ⟨⟨_, order⟩, _⟩ | ⟨_, rfl⟩
    · exact ((behind stop).mp order).1
    · exact inside
  rwa [Nat.max_eq_left late]

theorem wholeLines_wholeLines (t : Text) (e : Extent) :
    t.wholeLines (t.wholeLines e) = t.wholeLines e := by
  have hull := hull_wholeLines t e
  obtain ⟨order, inside⟩ := e.clamp_le t.length
  have early := hull.start.1.2
  obtain ⟨late, bound, _⟩ := hull.stop_bounds inside
  have kept : (t.wholeLines e).clamp t.length = t.wholeLines e := by
    rw [Extent.clamp, Nat.min_eq_left (by omega), Nat.min_eq_left bound, Nat.max_eq_left (by omega)]
  have again := hull_wholeLines t (t.wholeLines e)
  rw [kept] at again
  exact hull_unique again (hull.of_lines inside)

theorem wholeLines_start (t : Text) (e : Extent) :
    (t.wholeLines e).start ≤ (e.clamp t.length).start := (hull_wholeLines t e).start.1.2

theorem isLineStart_length {t : Text} :
    IsLineStart t t.length ↔ t = [] ∨ ∃ c, t.getLast? = some c ∧ isTerminator c = true := by
  unfold IsLineStart
  rw [List.getElem?_eq_none (Nat.le_refl _), List.getLast?_eq_getElem?, List.length_eq_zero_iff]
  constructor
  · rintro (empty | ⟨c, _, found, ends, _⟩)
    · exact Or.inl empty
    · exact Or.inr ⟨c, found, ends⟩
  · rintro (empty | ⟨c, found, ends⟩)
    · exact Or.inl empty
    · have inside := (List.getElem?_eq_some_iff.mp found).1
      exact Or.inr ⟨c, by omega, found, ends, by simp⟩

theorem wholeLines_isEmpty {t : Text} {e : Extent} (none : (t.wholeLines e).isEmpty = true) :
    t.length ≤ (t.wholeLines e).start := by
  have hull := hull_wholeLines t e
  have early := hull.start.1.2
  simp only [Extent.isEmpty, decide_eq_true_eq] at none
  rcases hull.stop with ⟨⟨_, _, late⟩, _⟩ | ⟨_, last⟩
  · omega
  · omega

theorem length_le_wholeLines_iff (t : Text) (e : Extent) :
    t.length ≤ (t.wholeLines e).start ↔
      (e.clamp t.length).start = t.length ∧ IsLineStart t t.length := by
  obtain ⟨⟨start, early⟩, latest⟩ := (hull_wholeLines t e).start
  obtain ⟨order, inside⟩ := e.clamp_le t.length
  constructor
  · intro beyond
    have here : (t.wholeLines e).start = t.length := Nat.le_antisymm (lineStart_le start) beyond
    exact ⟨by omega, here ▸ start⟩
  · rintro ⟨here, ends⟩
    exact latest ⟨ends, Nat.le_of_eq here.symm⟩

end SyntaxPaint.Text
