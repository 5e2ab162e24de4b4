import SyntaxPaint.Proofs.Buffer.RunMap

/-!
Painting runs that tile a stretch of the buffer: inside the stretch the characters look as the runs
say, and everything else stays.
-/
namespace SyntaxPaint

namespace Runs

theorem look_place {start stop origin len cursor : Nat} {runs : Runs}
    (tiles : Tiles start stop runs) (fits : origin + stop ≤ len) (behind : cursor ≤ origin + start)
    (i : Nat) :
    look (place origin len cursor runs) i =
      if origin ≤ i then look runs (i - origin) else none := by
  induction runs generalizing start cursor with
  | nil => simp [place]
  | cons r rest ih =>
    obtain ⟨rfl, valid, tail⟩ := tiles
    have room := tiles_start_le tail
    have first : max (origin + r.extent.start) cursor = origin + r.extent.start := by omega
    have last : min (origin + r.extent.stop) len = origin + r.extent.stop := by omega
    simp only [place, first, last]
    rw [if_neg (by omega), look_between, look_cons, ih tail (Nat.le_refl _)]
    split_ifs <;> first | rfl | omega

theorem place_ne_nil {start stop origin len cursor : Nat} {runs : Runs}
    (tiles : Tiles start stop runs) (filled : start < stop) (fits : origin + stop ≤ len)
    (behind : cursor ≤ origin + start) : place origin len cursor runs ≠ [] := by
  intro none
  obtain ⟨a, found⟩ := look_some_of_tiles tiles (Nat.le_refl _) filled
  have placed := look_place tiles fits behind (origin + start)
  rw [none, if_pos (Nat.le_add_right _ _), Nat.add_sub_cancel_left, found] at placed
  cases placed

end Runs

namespace TextBuffer
open Runs

theorem paint_isSome {b : TextBuffer} {origin : Nat} {runs : Runs}
    (filled : place origin b.length 0 runs ≠ []) :
    ∃ record after, b.paint origin runs = some (record, after) := by
  unfold paint
  generalize place origin b.length 0 runs = placed at filled ⊢
  cases placed with
  | nil => cases filled rfl
  | cons p rest =>
    cases last : (p :: rest).getLast? with
    | none => simp at last
    | some q => exact ⟨_, _, rfl⟩

theorem paint_stretch {b : TextBuffer} (mapped : b.Mapped) (origin : Nat) {stop : Nat}
    {runs : Runs} (tiles : Tiles 0 stop runs) (filled : 0 < stop)
    (fits : origin + stop ≤ b.length) :
    ∃ record after, b.paint origin runs = some (record, after) ∧ after.Mapped ∧
      after.text = b.text ∧ after.defaults = b.defaults ∧ after.revision = b.revision + 1 ∧
      (∀ i < stop, SameLook (look after.runs (origin + i)) (look runs i)) ∧
      ∀ i, i < origin ∨ origin + stop ≤ i → SameLook (look after.runs i) (look b.runs i) := by
  obtain ⟨record, after, done⟩ := paint_isSome
    (place_ne_nil tiles filled fits (Nat.zero_le _))
  obtain ⟨window, apart, wide, within, _, painted⟩ := paint_window done
  obtain ⟨_, looks⟩ := overlay_window mapped apart wide within
  have shown (i : Nat) : SameLook (look after.runs i)
      ((if origin ≤ i then look runs (i - origin) else none).or (look b.runs i)) := by
    rw [← look_place tiles fits (Nat.zero_le _), painted]
    exact looks i
  refine ⟨record, after, done, mapped_paint mapped done, ?_, ?_, ?_, ?_, ?_⟩
  · rw [painted]
  · rw [painted]
  · rw [painted]
  · intro i upper
    obtain ⟨a, found⟩ := look_some_of_tiles tiles (Nat.zero_le i) upper
    have here := shown (origin + i)
    rw [if_pos (Nat.le_add_right _ _), Nat.add_sub_cancel_left, found] at here
    rw [found]
    exact here
  · intro i outside
    have here := shown i
    split at here
    · rw [look_none_of_tiles tiles (by omega), Option.none_or] at here
      exact here
    · exact here

end TextBuffer

end SyntaxPaint
