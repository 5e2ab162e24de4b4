import SyntaxPaint.Text.Basic
import Mathlib.Data.List.Infix
import Mathlib.Data.List.TakeWhile

/-!
Lower-casing letters moves no other character and makes none, so blanks and marks stay where they
are.
-/
namespace SyntaxPaint.Text

theorem toLower_cases (c : Char) :
    c.toLower = c ∧ ¬ (65 ≤ c.toNat ∧ c.toNat ≤ 90) ∨
      65 ≤ c.toNat ∧ c.toNat ≤ 90 ∧ c.toLower.toNat = c.toNat + 32 := by
  unfold Char.toLower
  split
  · next upper =>
    right
    have low : 65 ≤ c.toNat := UInt32.le_iff_toNat_le.mp upper.1
    have high : c.toNat ≤ 90 := UInt32.le_iff_toNat_le.mp upper.2
    refine ⟨low, high, ?_⟩
    show (c.val + ('a'.val - 'A'.val)).toNat = c.val.toNat + 32
    have small : c.val.toNat + 32 < 2 ^ 32 := by
      show c.toNat + 32 < 2 ^ 32
      omega
    rw [UInt32.toNat_add]
    exact Nat.mod_eq_of_lt small
  · next other =>
    left
    refine ⟨rfl, ?_⟩
    rintro ⟨low, high⟩
    exact other ⟨UInt32.le_iff_toNat_le.mpr low, UInt32.le_iff_toNat_le.mpr high⟩

theorem toLower_toLower (c : Char) : c.toLower.toLower = c.toLower := by
  rcases toLower_cases c.toLower with ⟨same, _⟩ | ⟨low, high, _⟩
  · exact same
  · rcases toLower_cases c with ⟨same, other⟩ | ⟨low', high', moved⟩
    · rw [same] at low high
      exact absurd ⟨low, high⟩ other
    · omega

theorem visible_ascii {c : Char} (low : 33 ≤ c.toNat) (high : c.toNat ≤ 126) :
    isBlank c = false := by
  unfold isBlank
  simp only [Bool.or_eq_false_iff, Bool.and_eq_false_iff, decide_eq_false_iff_not,
    beq_eq_false_iff_ne]
  omega

theorem visible_alphanum {c : Char} (alphanum : c.isAlphanum = true) : isBlank c = false := by
  have range : 48 ≤ c.toNat ∧ c.toNat ≤ 122 := by
    unfold Char.isAlphanum Char.isAlpha Char.isUpper Char.isLower Char.isDigit at alphanum
    simp only [Bool.or_eq_true, Bool.and_eq_true, decide_eq_true_eq, ge_iff_le,
      UInt32.le_iff_toNat_le] at alphanum
    change (65 ≤ c.toNat ∧ c.toNat ≤ 90 ∨ 97 ≤ c.toNat ∧ c.toNat ≤ 122) ∨
      48 ≤ c.toNat ∧ c.toNat ≤ 57 at alphanum
    omega
  exact visible_ascii (by omega) (by omega)

theorem isBlank_toLower (c : Char) : isBlank c.toLower = isBlank c := by
  rcases toLower_cases c with ⟨same, _⟩ | ⟨low, high, moved⟩
  · rw [same]
  · rw [visible_ascii (by omega) (by omega), visible_ascii (by omega) (by omega)]

theorem eq_of_toLower {c d : Char} (lower : c.toLower = d)
    (other : ¬ (97 ≤ d.toNat ∧ d.toNat ≤ 122)) : c = d := by
  rcases toLower_cases c with ⟨same, _⟩ | ⟨_, _, moved⟩
  · rw [← lower, same]
  · rw [lower] at moved
    omega

theorem asciiLower_asciiLower (t : Text) : asciiLower (asciiLower t) = asciiLower t := by
  unfold asciiLower
  rw [List.map_map]
  exact List.map_congr_left fun c _ => toLower_toLower c

theorem trim_asciiLower (t : Text) : (asciiLower t).trim = asciiLower t.trim := by
  have same : isBlank ∘ Char.toLower = isBlank := funext isBlank_toLower
  simp only [trim, trimStart, trimEnd, asciiLower, List.dropWhile_map, ← List.map_reverse, same]

theorem infix_of_asciiLower {needle t : Text}
    (unlettered : (needle.all fun d => decide (d.toNat < 97) || decide (122 < d.toNat)) = true)
    (inside : needle <:+: asciiLower t) : needle <:+: t := by
  obtain ⟨front, back, split⟩ := inside
  obtain ⟨before, after, rfl, left, right⟩ := List.map_eq_append_iff.mp split.symm
  obtain ⟨before', middle, rfl, left', lowered⟩ := List.map_eq_append_iff.mp left
  have same : middle.map Char.toLower = middle.map id := by
    refine List.map_congr_left fun c member => (eq_of_toLower rfl ?_).symm
    have other := List.all_eq_true.mp unlettered _ (lowered ▸ List.mem_map_of_mem member)
    simp only [Bool.or_eq_true, decide_eq_true_eq] at other
    omega
  rw [List.map_id, lowered] at same
  exact ⟨before', after, by rw [same]⟩

end SyntaxPaint.Text
