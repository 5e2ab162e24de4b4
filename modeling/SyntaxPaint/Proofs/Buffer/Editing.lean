import SyntaxPaint.Buffer.Basic
import SyntaxPaint.Proofs.Buffer.RunMap
import SyntaxPaint.Proofs.Text.Lines

/-!
What an edit of the characters leaves alone: the text above the edited lines, and its looks. The
edited lines are a paragraph, the smallest extent of whole lines around an extent, however that lies
to the buffer; asking for the paragraph of a paragraph changes nothing (`paragraph_hull`).
-/
namespace SyntaxPaint.TextBuffer
open Runs

def lineOf (b : TextBuffer) (edit : EditRecord) : Nat := (b.paragraph edit.edited).start

theorem lineOf_le (b : TextBuffer) (edit : EditRecord) : b.lineOf edit ≤ edit.extent.start :=
  Nat.le_trans (Text.wholeLines_start b.text edit.edited) (Nat.min_le_left _ _)

/-- What stands above a line of the one buffer stands there in the other, looking the same. -/
structure SameAbove (line : Nat) (before after : TextBuffer) : Prop where
  text : after.text.take line = before.text.take line
  looks : ∀ i < line, SameLook (look after.runs i) (look before.runs i)

theorem SameAbove.within {line : Nat} {before after : TextBuffer}
    (same : SameAbove line before after) (inside : line ≤ after.length) : line ≤ before.length := by
  have length := congrArg List.length same.text
  simp only [TextBuffer.length, List.length_take] at length inside ⊢
  omega

theorem SameAbove.character {line : Nat} {before after : TextBuffer}
    (same : SameAbove line before after) {i : Nat} (above : i < line) :
    after.text[i]? = before.text[i]? := by
  rw [← List.getElem?_take_of_lt above, same.text, List.getElem?_take_of_lt above]

theorem replace_eq_some {b after : TextBuffer} {e : Extent} {text : Text} {edit : EditRecord}
    (done : b.replace e text = some (edit, after)) :
    ∃ within : Extent, within.start ≤ within.stop ∧ within.stop ≤ b.length ∧
      (within.start < within.stop ∨ text ≠ []) ∧ edit = ⟨.characters, within, text.length⟩ ∧
      after = { b with
        text := b.text.take within.start ++ text ++ b.text.drop within.stop
        runs := b.runs.splice within text.length (b.inherited within.start within.stop)
        revision := b.revision + 1 } := by
  unfold replace at done
  obtain ⟨order, fits⟩ := e.clamp_le b.length
  generalize e.clamp b.length = within at done order fits
  dsimp only at done
  split at done
  · cases done
  · next changes =>
    obtain ⟨rfl, rfl⟩ := Prod.mk.inj (Option.some.inj done)
    refine ⟨within, order, fits, ?_, rfl, rfl⟩
    simp only [Extent.isEmpty, Bool.and_eq_true, decide_eq_true_eq, List.isEmpty_iff,
      not_and_or] at changes
    exact changes.imp_left Nat.lt_of_not_le

theorem setAttributes_eq_some {b after : TextBuffer} {e : Extent} {attributes : Attributes}
    {edit : EditRecord} (done : b.setAttributes e attributes = some (edit, after)) :
    edit.kind = .attributes ∧ after.text = b.text := by
  unfold setAttributes at done
  dsimp only at done
  split at done
  · cases done
  · cases done
    exact ⟨rfl, rfl⟩

theorem replace_above {b after : TextBuffer} {e : Extent} {text : Text} {edit : EditRecord}
    (mapped : b.Mapped) (done : b.replace e text = some (edit, after)) :
    SameAbove (after.lineOf edit) b after ∧ after.lineOf edit ≤ after.length ∧
      (after.length ≤ after.lineOf edit → after.length < b.length) := by
  obtain ⟨within, order, fits, changes, rfl, made⟩ := replace_eq_some done
  have size : after.length = within.start + text.length + (b.length - within.stop) := by
    rw [made]
    simp only [TextBuffer.length, List.length_append, List.length_take, List.length_drop] at fits ⊢
    omega
  have early := after.lineOf_le ⟨.characters, within, text.length⟩
  dsimp only at early
  generalize after.lineOf ⟨.characters, within, text.length⟩ = line at early
  refine ⟨⟨?_, ?_⟩, by omega, ?_⟩
  · have room : line ≤ (b.text.take within.start).length := by
      simp only [TextBuffer.length] at fits
      rw [List.length_take]
      omega
    rw [made]
    dsimp only
    rw [List.append_assoc, List.take_append_of_le_length room, List.take_take,
      Nat.min_eq_left early]
  · intro i above
    rw [made]
    exact look_splice_before _ mapped order fits (by omega)
  · intro behind
    have none : text.length = 0 := by omega
    have cut : within.start < within.stop := changes.resolve_right fun some =>
      some (List.length_eq_zero_iff.mp none)
    omega

open Text

/-- The paragraph starts at the greatest line start that is not behind the extent, and stops at the
least one behind its start that does not cut it off, or at the end of the buffer. -/
theorem paragraph_hull (b : TextBuffer) (e : Extent) :
    let start := min e.start b.length
    let stop := max (min e.stop b.length) start
    let behind := {p | IsLineStart b.text p ∧ stop ≤ p ∧ start < p}
    let lines := b.paragraph e
    IsGreatest {p | IsLineStart b.text p ∧ p ≤ start} lines.start ∧
    (IsLeast behind lines.stop ∨ behind = ∅ ∧ lines.stop = b.length) ∧
    lines.start ≤ start ∧ stop ≤ lines.stop ∧ lines.stop ≤ b.length ∧
    IsLineStart b.text lines.start ∧
    (IsLineStart b.text lines.stop ∨ lines.stop = b.length) ∧
    b.paragraph lines = lines := by
  intro start stop behind lines
  have hull : Hull b.text ⟨start, stop⟩ lines := hull_wholeLines b.text e
  obtain ⟨late, bound, ends⟩ := hull.stop_bounds (e.clamp_le b.length).2
  exact ⟨hull.start, hull.stop, hull.start.1.2, late, bound, hull.start.1.1, ends,
    wholeLines_wholeLines b.text e⟩

example (a : Attributes) :
    let b := ofText "a\r\nb\n".toList a
    b.paragraph ⟨2, 2⟩ = ⟨0, 3⟩ ∧ b.paragraph ⟨9, 4⟩ = ⟨5, 5⟩ := ⟨rfl, rfl⟩

end SyntaxPaint.TextBuffer
