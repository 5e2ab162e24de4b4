import SyntaxPaint.Proofs.Buffer.RunMap
import SyntaxPaint.Proofs.Run.Expansion

/-!
A buffer as the list of its characters with their attributes. The text and the runs are edited
apart from each other, and each edit does to the whole what it would do to that list.
-/
namespace SyntaxPaint

namespace Runs

theorem expand_splice {stop : Nat} {runs : Runs} {e : Extent} (tiles : Tiles 0 stop runs)
    (order : e.start ≤ e.stop) (fits : e.stop ≤ stop) (count : Nat) (a : Attributes) :
    AlikeLists (expand (runs.splice e count a))
      ((expand runs).take e.start ++ List.replicate count a ++ (expand runs).drop e.stop) := by
  have lower : e.start ≤ stop := Nat.le_trans order fits
  obtain ⟨left, right⟩ := tiles_cut tiles (Nat.zero_le e.start) lower
  obtain ⟨_, behind⟩ := tiles_cut right order fits
  obtain ⟨front, rest⟩ := expand_cut tiles (Nat.zero_le e.start)
  obtain ⟨_, back⟩ := expand_cut right order
  have room : e.length ≤ e.stop := Nat.sub_le _ _
  have moved : Tiles (e.stop + count - e.length) (stop + count - e.length)
      (shift e.length count (cut e.stop (cut e.start runs).2).2) := tiles_shift behind room
  have kept : expand (shift e.length count (cut e.stop (cut e.start runs).2).2) =
      expand (cut e.stop (cut e.start runs).2).2 := expand_shift behind room
  have seam : e.stop + count - e.length = e.start + count := by
    simp only [Extent.length]
    omega
  have onward : e.start + (e.stop - e.start) = e.stop := by omega
  rw [seam] at moved
  rw [back, rest, List.drop_drop, Nat.sub_zero, onward] at kept
  rw [Nat.sub_zero] at front
  rw [← front, ← kept]
  -- The pieces are those of the list; only merging at the seams is up to attributes that are alike.
  unfold splice
  by_cases none : count = 0
  · simp only [none, beq_self_eq_true, if_true, List.replicate_zero, List.append_nil] at moved ⊢
    rw [← expand_append]
    exact expand_mergeAt (tiles_append.mpr ⟨_, left, moved⟩) _
  · simp only [beq_iff_eq, none, if_false]
    have whole : Tiles 0 (stop + count - e.length) ((cut e.start runs).1 ++
        .between e.start (e.start + count) a ::
          shift e.length count (cut e.stop (cut e.start runs).2).2) :=
      tiles_append.mpr ⟨_, left, rfl, by simp only [Run.between]; omega, moved⟩
    have labels : expand ((cut e.start runs).1 ++ .between e.start (e.start + count) a ::
        shift e.length count (cut e.stop (cut e.start runs).2).2) =
        expand (cut e.start runs).1 ++ List.replicate count a ++
          expand (shift e.length count (cut e.stop (cut e.start runs).2).2) := by
      simp [expand_append, Run.between, Extent.length]
    rw [← labels]
    refine alikeLists_trans ?_ (expand_mergeAt whole ((cut e.start runs).1.length + 1))
    exact expand_mergeAt (tiles_mergeAt whole _) _

end Runs

def SameCells (cells others : List (Char × Attributes)) : Prop :=
  List.Forall₂ (fun x y => x.1 = y.1 ∧ x.2.Alike y.2) cells others

namespace TextBuffer
open Runs

theorem length_runs {b : TextBuffer} (mapped : b.Mapped) : b.runs.expand.length = b.text.length :=
  length_expand mapped.1

theorem characters_styled {b : TextBuffer} (mapped : b.Mapped) :
    b.styled.map (·.1) = b.text :=
  List.map_fst_zip (Nat.le_of_eq (length_runs mapped).symm)

theorem attributes_styled {b : TextBuffer} (mapped : b.Mapped) :
    b.styled.map (·.2) = b.runs.expand :=
  List.map_snd_zip (Nat.le_of_eq (length_runs mapped))

theorem styled_attributes {b : TextBuffer} (mapped : b.Mapped) (i : Nat) :
    b.styled[i]?.map (·.2) = (b.runAt? i).map (·.attributes) := by
  have labels := getElem?_expand mapped.1 i
  rw [Nat.zero_add] at labels
  have found : (b.runAt? i).map (·.attributes) = look b.runs i := at?_attributes mapped.1 i
  rw [← List.getElem?_map, attributes_styled mapped, labels, found]

theorem sameCells_styled {b : TextBuffer} {cells : List (Char × Attributes)}
    (characters : cells.map (·.1) = b.text)
    (attributes : AlikeLists b.runs.expand (cells.map (·.2))) : SameCells b.styled cells := by
  unfold styled SameCells
  generalize b.runs.expand = labels at attributes
  rw [← characters]
  clear characters
  induction cells generalizing labels with
  | nil => simp
  | cons cell cells ih =>
    cases attributes with
    | cons alike rest => exact .cons ⟨rfl, alike⟩ (ih _ rest)

def neighbourAttributes (b : TextBuffer) (start stop : Nat) : Attributes :=
  let cell? :=
    if start < stop then b.styled[start]?
    else if 0 < start then b.styled[start - 1]?
    else b.styled[0]?
  (cell?.map (·.2)).getD b.defaults

theorem inherited_eq {b : TextBuffer} (mapped : b.Mapped) (start stop : Nat) :
    b.inherited start stop = b.neighbourAttributes start stop := by
  have found (i : Nat) := styled_attributes mapped i
  unfold inherited neighbourAttributes
  dsimp only
  by_cases replaced : start < stop
  · simp [replaced, found]
  · by_cases behind : 0 < start
    · simp [replaced, behind, found]
    · have front : start = 0 := by omega
      subst front
      by_cases filled : 0 < b.length
      · simp [replaced, filled, found]
      · have none : b.runAt? 0 = none := by
          have outside := runAt?_isSome_iff mapped 0
          simpa [filled] using outside
        simp [replaced, filled, found, none]

theorem slice_between (front middle back : Text) :
    ((front ++ middle ++ back).take (front.length + middle.length)).drop front.length = middle := by
  have whole : (front ++ middle).length = front.length + middle.length := List.length_append
  rw [← whole, List.take_left, List.drop_left]

/-- An edit has put characters with the same attributes into the place of an extent, and left a
record of it. -/
structure Replaced (b : TextBuffer) (kind : EditKind) (within : Extent) (text : Text)
    (a : Attributes) (edit : EditRecord) (after : TextBuffer) : Prop where
  cells : SameCells after.styled
    (b.styled.take within.start ++ text.map (·, a) ++ b.styled.drop within.stop)
  characters : after.text = b.text.take within.start ++ text ++ b.text.drop within.stop
  defaults : after.defaults = b.defaults
  revision : after.revision = b.revision + 1
  kind : edit.kind = kind
  extent : edit.extent = within
  length : (after.length : Int) = b.length + edit.change
  slice : after.slice edit.edited = text

theorem replaced_of_splice {b : TextBuffer} (mapped : b.Mapped) (kind : EditKind) {within : Extent}
    (order : within.start ≤ within.stop) (fits : within.stop ≤ b.length) (text : Text)
    (a : Attributes) :
    Replaced b kind within text a ⟨kind, within, text.length⟩
      { b with
        text := b.text.take within.start ++ text ++ b.text.drop within.stop
        runs := b.runs.splice within text.length a
        revision := b.revision + 1 } := by
  unfold TextBuffer.length at fits
  constructor
  case cells =>
    apply sameCells_styled
    · simp [characters_styled mapped, List.map_take, List.map_drop, Function.comp_def]
    · have labels := expand_splice mapped.1 order fits text.length a
      simpa [attributes_styled mapped, List.map_take, List.map_drop, Function.comp_def]
        using labels
  case characters => rfl
  case defaults => rfl
  case revision => rfl
  case kind => rfl
  case extent => rfl
  case length =>
    simp only [TextBuffer.length, EditRecord.change, Extent.length, List.length_append,
      List.length_take, List.length_drop]
    omega
  case slice =>
    have front : (b.text.take within.start).length = within.start := by
      rw [List.length_take]
      omega
    have inner := slice_between (b.text.take within.start) text (b.text.drop within.stop)
    rw [front] at inner
    exact inner

theorem replaced_of_replace {b after : TextBuffer} {e : Extent} {text : Text} {edit : EditRecord}
    (mapped : b.Mapped) (done : b.replace e text = some (edit, after)) :
    Replaced b .characters (e.clamp b.length) text
      (b.neighbourAttributes (e.clamp b.length).start (e.clamp b.length).stop) edit after := by
  obtain ⟨order, fits⟩ := e.clamp_le b.length
  unfold replace at done
  dsimp only at done
  split at done
  · cases done
  · obtain ⟨rfl, rfl⟩ := Prod.mk.inj (Option.some.inj done)
    rw [inherited_eq mapped]
    exact replaced_of_splice mapped _ order fits text _

theorem slice_back {b : TextBuffer} {within : Extent} (order : within.start ≤ within.stop)
    (fits : within.stop ≤ b.length) :
    (b.slice within).length = within.length ∧
      b.text.take within.start ++ b.slice within ++ b.text.drop within.stop = b.text := by
  unfold TextBuffer.length at fits
  constructor
  · simp only [TextBuffer.slice, List.length_drop, List.length_take, Extent.length]
    omega
  · have front : (b.text.take within.stop).take within.start = b.text.take within.start := by
      rw [List.take_take, Nat.min_eq_left order]
    rw [TextBuffer.slice, ← front, List.take_append_drop, List.take_append_drop]

theorem replaced_of_setAttributes {b after : TextBuffer} {e : Extent} {a : Attributes}
    {edit : EditRecord} (mapped : b.Mapped) (done : b.setAttributes e a = some (edit, after)) :
    Replaced b .attributes (e.clamp b.length) (b.slice (e.clamp b.length)) a edit after := by
  obtain ⟨order, fits⟩ := e.clamp_le b.length
  obtain ⟨length, back⟩ := slice_back order fits
  unfold setAttributes at done
  dsimp only at done
  split at done
  · cases done
  · obtain ⟨rfl, rfl⟩ := Prod.mk.inj (Option.some.inj done)
    have replaced := replaced_of_splice mapped .attributes order fits (b.slice (e.clamp b.length)) a
    rwa [back, length] at replaced

theorem replace_eq_none_iff (b : TextBuffer) (e : Extent) (text : Text) :
    b.replace e text = none ↔
      (e.clamp b.length).start = (e.clamp b.length).stop ∧ text = [] := by
  have order := (e.clamp_le b.length).1
  simp [replace, Extent.isEmpty, Nat.le_antisymm_iff, order]

theorem setAttributes_eq_none_iff (b : TextBuffer) (e : Extent) (a : Attributes) :
    b.setAttributes e a = none ↔ (e.clamp b.length).start = (e.clamp b.length).stop := by
  have order := (e.clamp_le b.length).1
  simp [setAttributes, Extent.isEmpty, Nat.le_antisymm_iff, order]

/-- After any history the cells of a buffer are its characters with the attributes of their runs,
and an edit of an extent replaces those cells alone that lie in it. An edit that would replace
nothing is none, and leaves the buffer as it is. -/
theorem edits_refine_cells (source : Text) (base : Attributes) (changes : List BufferChange)
    (e : Extent) :
    let b := (ofText source base).changeAll changes
    let start := min e.start b.length
    let stop := max (min e.stop b.length) start
    (b.styled.map (·.1) = b.text ∧
      ∀ i, b.styled[i]?.map (·.2) = (b.runAt? i).map (·.attributes)) ∧
    (∀ text : Text,
      (b.replace e text = none ↔ start = stop ∧ text = []) ∧
      (b.replace e text = none → b.change (.replace e text) = b) ∧
      ∀ edit after, b.replace e text = some (edit, after) →
        b.change (.replace e text) = after ∧ Replaced b .characters ⟨start, stop⟩ text
          (b.neighbourAttributes start stop) edit after) ∧
    ∀ a : Attributes,
      (b.setAttributes e a = none ↔ start = stop) ∧
      (b.setAttributes e a = none → b.change (.setAttributes e a) = b) ∧
      ∀ edit after, b.setAttributes e a = some (edit, after) →
        b.change (.setAttributes e a) = after ∧ after.text = b.text ∧
          Replaced b .attributes ⟨start, stop⟩ (b.slice ⟨start, stop⟩) a edit after := by
  intro b start stop
  have mapped : b.Mapped := mapped_changeAll (mapped_ofText source base) changes
  obtain ⟨order, fits⟩ := e.clamp_le b.length
  refine ⟨⟨characters_styled mapped, styled_attributes mapped⟩, ?_, ?_⟩
  · intro text
    refine ⟨replace_eq_none_iff b e text, ?_, ?_⟩
    · intro none
      simp [TextBuffer.change, none]
    · intro edit after done
      exact ⟨by simp [TextBuffer.change, done], replaced_of_replace mapped done⟩
  · intro a
    refine ⟨setAttributes_eq_none_iff b e a, ?_, ?_⟩
    · intro none
      simp [TextBuffer.change, none]
    · intro edit after done
      have replaced := replaced_of_setAttributes mapped done
      have same : after.text = b.text := replaced.characters.trans (slice_back order fits).2
      exact ⟨by simp [TextBuffer.change, done], same, replaced⟩

theorem edits_refine_cells_red_end :
    let plain : Attributes := .plain .standard
    let red : Attributes := { plain with foreground := some (.rgb 255 0 0) }
    let b := (ofText ['a', 'b'] plain).changeAll [.setAttributes ⟨1, 9⟩ red]
    (∃ edit after, b.replace ⟨1, 7⟩ ['x', 'y'] = some (edit, after) ∧
      SameCells after.styled [('a', plain), ('x', red), ('y', red)] ∧ edit.change = 1) ∧
    (∃ edit after, b.setAttributes ⟨1, 7⟩ plain = some (edit, after) ∧
      SameCells after.styled [('a', plain), ('b', plain)] ∧ edit.change = 0) ∧
    b.replace ⟨2, 1⟩ [] = none ∧ b.setAttributes ⟨2, 1⟩ plain = none ∧
      b.change (.replace ⟨2, 1⟩ []) = b ∧ b.change (.setAttributes ⟨2, 1⟩ plain) = b := by
  intro plain red b
  obtain ⟨_, characters, looks⟩ :=
    edits_refine_cells ['a', 'b'] plain [.setAttributes ⟨1, 9⟩ red] ⟨1, 7⟩
  obtain ⟨_, none, none'⟩ :=
    edits_refine_cells ['a', 'b'] plain [.setAttributes ⟨1, 9⟩ red] ⟨2, 1⟩
  have replaced : b.replace ⟨1, 7⟩ ['x', 'y'] = some _ := rfl
  have restyled : b.setAttributes ⟨1, 7⟩ plain = some _ := rfl
  refine ⟨⟨_, _, replaced, ?_, rfl⟩, ⟨_, _, restyled, ?_, rfl⟩, ?_, ?_, ?_, ?_⟩
  · exact ((characters ['x', 'y']).2.2 _ _ replaced).2.cells
  · exact ((looks plain).2.2 _ _ restyled).2.2.cells
  · exact (none []).1.mpr ⟨rfl, rfl⟩
  · exact (none' plain).1.mpr rfl
  · exact (none []).2.1 rfl
  · exact (none' plain).2.1 rfl

end TextBuffer

end SyntaxPaint
