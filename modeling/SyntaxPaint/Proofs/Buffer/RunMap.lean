import SyntaxPaint.Proofs.Buffer.Overlay
import SyntaxPaint.Proofs.Run.Maximal
import Mathlib.Tactic.IntervalCases

/-!
Whatever is done to a buffer, its runs are the shortest ones that give its characters their looks.
-/
namespace SyntaxPaint.TextBuffer
open Runs

def Mapped (b : TextBuffer) : Prop := Canonical 0 b.length b.runs

theorem mapped_ofText (text : Text) (a : Attributes) : (ofText text a).Mapped := by
  unfold Mapped ofText
  cases text with
  | nil => exact canonical_nil 0
  | cons c text => exact canonical_singleton (Nat.succ_pos _) a

theorem mapped_replace {b after : TextBuffer} {e : Extent} {text : Text} {record : EditRecord}
    (mapped : b.Mapped) (done : b.replace e text = some (record, after)) : after.Mapped := by
  unfold replace at done
  obtain ⟨order, fits⟩ := e.clamp_le b.length
  generalize e.clamp b.length = e at done order fits
  simp only at done
  split at done
  · cases done
  · obtain ⟨rfl, rfl⟩ := Prod.mk.inj (Option.some.inj done)
    have spliced : Canonical 0 (b.length + text.length - e.length)
        (b.runs.splice e text.length (b.inherited e.start e.stop)) :=
      canonical_splice mapped order fits
    have length : (b.text.take e.start ++ text ++ b.text.drop e.stop).length =
        b.length + text.length - e.length := by
      simp only [List.length_append, List.length_take, List.length_drop, TextBuffer.length,
        Extent.length] at *
      omega
    unfold Mapped TextBuffer.length
    rw [length]
    exact spliced

theorem mapped_setAttributes {b after : TextBuffer} {e : Extent} {a : Attributes}
    {record : EditRecord} (mapped : b.Mapped)
    (done : b.setAttributes e a = some (record, after)) : after.Mapped := by
  unfold setAttributes at done
  obtain ⟨order, fits⟩ := e.clamp_le b.length
  generalize e.clamp b.length = e at done order fits
  simp only at done
  split at done
  · cases done
  · obtain ⟨rfl, rfl⟩ := Prod.mk.inj (Option.some.inj done)
    have spliced : Canonical 0 (b.length + e.length - e.length) (b.runs.splice e e.length a) :=
      canonical_splice mapped order fits
    rw [Nat.add_sub_cancel] at spliced
    exact spliced

theorem paint_window {b after : TextBuffer} {origin : Nat} {runs : Runs} {record : EditRecord}
    (done : b.paint origin runs = some (record, after)) :
    ∃ window : Extent, Apart window.start window.stop (place origin b.length 0 runs) ∧
      window.start < window.stop ∧ window.stop ≤ b.length ∧
      record = ⟨.attributes, window, window.length⟩ ∧
      after = { b with
        runs := b.runs.overlay window (place origin b.length 0 runs)
        revision := b.revision + 1 } := by
  unfold paint at done
  have apart := apart_place origin b.length 0 runs (Nat.zero_le _)
  generalize place origin b.length 0 runs = placed at done apart ⊢
  simp only at done
  split at done
  · next first last isFirst isLast =>
    obtain ⟨rfl, rfl⟩ := Prod.mk.inj (Option.some.inj done)
    obtain ⟨_, fits, window⟩ := apart_window apart isFirst isLast
    refine ⟨⟨first.extent.start, last.extent.stop⟩, window, ?_, fits, rfl, rfl⟩
    cases placed with
    | nil => cases isFirst
    | cons p placed =>
      have := apart_le window.2.2
      have := window.1
      have := window.2.1
      show first.extent.start < last.extent.stop
      omega
  · cases done

theorem mapped_paint {b after : TextBuffer} {origin : Nat} {runs : Runs} {record : EditRecord}
    (mapped : b.Mapped) (done : b.paint origin runs = some (record, after)) : after.Mapped := by
  obtain ⟨window, apart, some, fits, _, rfl⟩ := paint_window done
  exact (overlay_window mapped apart some fits).1

theorem mapped_change {b : TextBuffer} (mapped : b.Mapped) (change : BufferChange) :
    (b.change change).Mapped := by
  cases change with
  | replace e text =>
    cases done : b.replace e text with
    | none => simpa [TextBuffer.change, done] using mapped
    | some result => simpa [TextBuffer.change, done] using mapped_replace mapped done
  | setAttributes e a =>
    cases done : b.setAttributes e a with
    | none => simpa [TextBuffer.change, done] using mapped
    | some result => simpa [TextBuffer.change, done] using mapped_setAttributes mapped done
  | paint origin runs =>
    cases done : b.paint origin runs with
    | none => simpa [TextBuffer.change, done] using mapped
    | some result => simpa [TextBuffer.change, done] using mapped_paint mapped done
  | setDefaults a => exact mapped

theorem mapped_changeAll {b : TextBuffer} (mapped : b.Mapped) (changes : List BufferChange) :
    (b.changeAll changes).Mapped := by
  induction changes generalizing b with
  | nil => exact mapped
  | cons change changes ih => exact ih (mapped_change mapped change)

theorem runAt?_isSome_iff {b : TextBuffer} (mapped : b.Mapped) (i : Nat) :
    (b.runAt? i).isSome = true ↔ i < b.length := by
  unfold runAt?
  rw [at?_isSome_iff mapped.1]
  omega

theorem look_of_runAt? {b : TextBuffer} (mapped : b.Mapped) {i : Nat} {r : Run}
    (found : b.runAt? i = some r) : look b.runs i = some r.attributes := by
  rw [← at?_attributes mapped.1]
  exact congrArg (Option.map (·.attributes)) found

def EqualAttributes (b c : TextBuffer) : Prop :=
  ∀ i, i < b.length → ∃ q r, b.runAt? i = some q ∧ c.runAt? i = some r ∧
    (q.attributes == r.attributes) = true

def UniformAttributes (b : TextBuffer) (x y : Nat) (a : Attributes) : Prop :=
  ∀ j, x ≤ j → j < y → ∃ q, b.runAt? j = some q ∧ (q.attributes == a) = true

theorem uniform_run {b : TextBuffer} (mapped : b.Mapped) {r : Run} (member : r ∈ b.runs)
    (definite : r.attributes.isDefinite = true) :
    b.UniformAttributes r.extent.start r.extent.stop r.attributes := by
  intro j lower upper
  have found : b.runAt? j = some r := (at?_eq_some_iff mapped.1).mpr ⟨member, lower, upper⟩
  exact ⟨r, found, Attributes.beq_self definite⟩

theorem runAt?_largest {b : TextBuffer} (mapped : b.Mapped) {i x y : Nat} {r : Run}
    (found : b.runAt? i = some r) (lower : x ≤ i) (upper : i < y) (fits : y ≤ b.length)
    (uniform : b.UniformAttributes x y r.attributes) : r.extent.start ≤ x ∧ y ≤ r.extent.stop := by
  obtain ⟨member, inside⟩ := (at?_eq_some_iff mapped.1).mp found
  refine run_is_largest mapped member inside lower upper ⟨Nat.zero_le _, fits⟩ ?_
  intro j reached before
  obtain ⟨q, found', equal⟩ := uniform j reached before
  exact ⟨q.attributes, look_of_runAt? mapped found', equal⟩

theorem runs_beq {b c : TextBuffer} (mapped : b.Mapped) (mapped' : c.Mapped)
    (length : b.length = c.length) (equal : b.EqualAttributes c) : (b.runs == c.runs) = true := by
  have second : Canonical 0 b.length c.runs := by
    rw [length]
    exact mapped'
  apply canonical_unique mapped second
  intro i _ upper
  obtain ⟨q, r, left, right, same⟩ := equal i upper
  exact ⟨q.attributes, r.attributes, look_of_runAt? mapped left, look_of_runAt? mapped' right, same⟩

/-- The runs of a buffer with any history tile its text, and neighbours look different. So a
position has a run exactly if it is in the text, and the run is the largest interval of equal
attributes around it; and the attributes of the single characters determine the runs. -/
theorem runs_canonical (text : Text) (a : Attributes) (changes : List BufferChange) :
    let b := (ofText text a).changeAll changes
    Tiles 0 b.length b.runs ∧ Separated b.runs ∧ (b.runs = [] ↔ b.length = 0) ∧
      (∀ i, (b.runAt? i).isSome = true ↔ i < b.length) ∧
      ((∀ r ∈ b.runs, r.attributes.isDefinite = true) → ∀ i r, b.runAt? i = some r →
        i ∈ r.extent ∧ b.UniformAttributes r.extent.start r.extent.stop r.attributes ∧
          ∀ x y, x ≤ i → i < y → y ≤ b.length → b.UniformAttributes x y r.attributes →
            r.extent.start ≤ x ∧ y ≤ r.extent.stop) ∧
      ∀ text' a' changes', let c := (ofText text' a').changeAll changes'
        b.length = c.length → b.EqualAttributes c → (b.runs == c.runs) = true := by
  intro b
  have mapped : b.Mapped := mapped_changeAll (mapped_ofText text a) changes
  refine ⟨mapped.1, mapped.2, ?_, runAt?_isSome_iff mapped, ?_, ?_⟩
  · rw [tiles_eq_nil_iff mapped.1]
    exact eq_comm
  · intro definite i r found
    obtain ⟨member, inside⟩ := (at?_eq_some_iff mapped.1).mp found
    refine ⟨inside, uniform_run mapped member (definite r member), ?_⟩
    intro x y lower upper fits uniform
    exact runAt?_largest mapped found lower upper fits uniform
  · intro text' a' changes' c length equal
    exact runs_beq mapped (mapped_changeAll (mapped_ofText text' a') changes') length equal

theorem runs_canonical_red_end :
    let plain : Attributes := .plain .standard
    let red : Attributes := { plain with foreground := some (.rgb 255 0 0) }
    let b := (ofText ['a', 'b'] plain).changeAll [.setAttributes ⟨1, 9⟩ red]
    let c := (ofText ['a', 'b'] red).changeAll [.paint 0 [.between 0 1 plain]]
    (b.length = c.length ∧ b.EqualAttributes c ∧ (b.runs == c.runs) = true) ∧
      (∀ r ∈ b.runs, r.attributes.isDefinite = true) ∧ b.runAt? 1 = some (.between 1 2 red) ∧
        b.UniformAttributes 1 2 red ∧ 1 ≤ 1 ∧ 2 ≤ 2 := by
  intro plain red b c
  have runsB : b.runs = [.between 0 1 plain, .between 1 2 red] := rfl
  have runsC : c.runs = [.between 0 1 plain, .between 1 2 red] := rfl
  have mappedB : b.Mapped := mapped_changeAll (mapped_ofText _ _) _
  have mappedC : c.Mapped := mapped_changeAll (mapped_ofText _ _) _
  have atB (i : Nat) : b.runAt? i = b.runs.find? (·.extent.contains i) :=
    at?_eq_find? mappedB.1 i
  have atC (i : Nat) : c.runAt? i = c.runs.find? (·.extent.contains i) :=
    at?_eq_find? mappedC.1 i
  obtain ⟨_, _, _, _, largest, unique⟩ :=
    runs_canonical ['a', 'b'] plain [.setAttributes ⟨1, 9⟩ red]
  have definite : ∀ r ∈ b.runs, r.attributes.isDefinite = true := by
    rw [runsB]
    decide
  have found : b.runAt? 1 = some (.between 1 2 red) := by
    rw [atB, runsB]
    rfl
  have uniform : b.UniformAttributes 1 2 red := by
    intro j lower upper
    obtain rfl : j = 1 := by omega
    exact ⟨_, found, by decide⟩
  have equal : b.EqualAttributes c := by
    intro i upper
    have upper : i < 2 := upper
    rw [atB, atC, runsB, runsC]
    interval_cases i
    · exact ⟨_, _, rfl, rfl, by decide⟩
    · exact ⟨_, _, rfl, rfl, by decide⟩
  obtain ⟨_, _, widest⟩ := largest definite 1 _ found
  refine ⟨⟨rfl, equal, ?_⟩, definite, found, uniform, ?_⟩
  · exact unique ['a', 'b'] red [.paint 0 [.between 0 1 plain]] rfl equal
  · exact widest 1 2 (Nat.le_refl _) (by decide) (by decide) uniform

end SyntaxPaint.TextBuffer
