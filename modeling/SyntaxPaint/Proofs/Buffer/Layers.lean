import SyntaxPaint.Proofs.Buffer.Painting

/-!
Which run shows at a position once a list of runs, in any order, is painted onto a buffer. A run
paints only behind all runs that painted before it; in ascending order that makes the first run
over a position the one that shows there.
-/
namespace SyntaxPaint

def Run.Covers (origin : Nat) (r : Run) (p : Nat) : Prop :=
  origin + r.extent.start ≤ p ∧ p < origin + r.extent.stop

instance (origin : Nat) (r : Run) (p : Nat) : Decidable (r.Covers origin p) :=
  inferInstanceAs (Decidable (_ ∧ _))

namespace Runs

/-- The run lies over the position, and the given ones all stop at or before it. -/
def Reaches (origin len : Nat) (before : Runs) (r : Run) (p : Nat) : Prop :=
  p < len ∧ r.Covers origin p ∧ ∀ q ∈ before, origin + q.extent.stop ≤ p

instance (origin len : Nat) (before : Runs) (r : Run) (p : Nat) :
    Decidable (Reaches origin len before r p) :=
  inferInstanceAs (Decidable (_ ∧ _ ∧ _))

def withNext (origin len : Nat) (before : Runs) (r : Run) : Runs :=
  if ∃ p < len, Reaches origin len before r p then before ++ [r] else before

/-- Those of the runs that paint at all, each behind the ones that painted before it. -/
def painting (origin len : Nat) (runs : Runs) : Runs := runs.foldl (withNext origin len) []

def Paints (origin len : Nat) (runs : Runs) (r : Run) (p : Nat) : Prop :=
  ∃ front back, runs = front ++ r :: back ∧ Reaches origin len (painting origin len front) r p

def Ascending (runs : Runs) : Prop := runs.Pairwise (·.extent.start ≤ ·.extent.start)

instance (runs : Runs) : Decidable runs.Ascending :=
  inferInstanceAs (Decidable (List.Pairwise _ _))

def placeSaturating (limit origin len : Nat) (cursor : Nat) : Runs → Runs
  | [] => []
  | r :: rest =>
    let start := max (min (origin + r.extent.start) limit) cursor
    let stop := min (min (origin + r.extent.stop) limit) len
    if stop ≤ start then placeSaturating limit origin len cursor rest
    else .between start stop r.attributes :: placeSaturating limit origin len stop rest

theorem placeSaturating_eq {limit len : Nat} (room : len ≤ limit) (origin cursor : Nat)
    (runs : Runs) :
    placeSaturating limit origin len cursor runs = place origin len cursor runs := by
  induction runs generalizing cursor with
  | nil => rfl
  | cons r rest ih =>
    have stop : min (min (origin + r.extent.stop) limit) len =
        min (origin + r.extent.stop) len := by
      omega
    simp only [placeSaturating, place, stop, ih]
    by_cases fits : origin + r.extent.start ≤ limit
    · rw [Nat.min_eq_left fits]
    · -- A start beyond the limit lies behind the text, where nothing is placed.
      rw [if_pos (by omega), if_pos (by omega)]

/- Placing one run after others. -/

def onward (cursor : Nat) (placed : Runs) : Nat :=
  (placed.getLast?.map (·.extent.stop)).getD cursor

@[simp] theorem onward_nil (cursor : Nat) : onward cursor [] = cursor := rfl

@[simp] theorem onward_cons (cursor : Nat) (p : Run) (placed : Runs) :
    onward cursor (p :: placed) = onward p.extent.stop placed := by
  cases last : placed.getLast? <;> simp [onward, List.getLast?_cons, last]

theorem onward_append (cursor : Nat) (front back : Runs) :
    onward cursor (front ++ back) = onward (onward cursor front) back := by
  induction front generalizing cursor with
  | nil => simp
  | cons p front ih => simp [ih]

theorem place_append (origin len cursor : Nat) (front back : Runs) :
    place origin len cursor (front ++ back) = place origin len cursor front ++
      place origin len (onward cursor (place origin len cursor front)) back := by
  induction front generalizing cursor with
  | nil => rfl
  | cons r front ih =>
    simp only [List.cons_append, place]
    split
    · exact ih cursor
    · simp [ih, Run.between]

theorem painting_concat (origin len : Nat) (front : Runs) (r : Run) :
    painting origin len (front ++ [r]) = withNext origin len (painting origin len front) r := by
  simp [painting]

theorem painting_subset {origin len : Nat} {runs : Runs} {q : Run}
    (member : q ∈ painting origin len runs) : q ∈ runs := by
  induction runs using List.reverseRecOn with
  | nil => simp [painting] at member
  | append_singleton front r ih =>
    rw [painting_concat, withNext] at member
    split at member
    · rcases List.mem_append.mp member with earlier | next
      · exact List.mem_append_left _ (ih earlier)
      · exact List.mem_append_right _ next
    · exact List.mem_append_left _ (ih member)

def Marks (origin len : Nat) (before : Runs) (cursor : Nat) : Prop :=
  ∀ p < len, cursor ≤ p ↔ ∀ q ∈ before, origin + q.extent.stop ≤ p

theorem reaches_iff {origin len cursor p : Nat} {before : Runs} {r : Run}
    (marks : Marks origin len before cursor) :
    Reaches origin len before r p ↔
      max (origin + r.extent.start) cursor ≤ p ∧ p < min (origin + r.extent.stop) len := by
  unfold Reaches Run.Covers
  constructor
  · rintro ⟨inside, covers, behind⟩
    have := (marks p inside).mpr behind
    omega
  · intro within
    exact ⟨by omega, by omega, (marks p (by omega)).mp (by omega)⟩

theorem marks_next {origin len cursor : Nat} {before : Runs} (r : Run)
    (marks : Marks origin len before cursor) :
    Marks origin len (withNext origin len before r)
      (onward cursor (place origin len cursor [r])) := by
  simp only [withNext, place, reaches_iff marks]
  by_cases empty : min (origin + r.extent.stop) len ≤ max (origin + r.extent.start) cursor
  · rw [if_pos empty, if_neg (by omega)]
    exact marks
  · rw [if_neg empty, if_pos ⟨max (origin + r.extent.start) cursor, by omega⟩]
    intro p inside
    simp only [onward_cons, onward_nil, Run.between, List.forall_mem_append,
      List.forall_mem_singleton, ← marks p inside]
    omega

theorem marks_place (origin len : Nat) (runs : Runs) :
    Marks origin len (painting origin len runs) (onward 0 (place origin len 0 runs)) := by
  induction runs using List.reverseRecOn with
  | nil => simp [Marks, painting, place]
  | append_singleton front r ih =>
    rw [painting_concat, place_append, onward_append]
    exact marks_next r ih

/- What shows at a position. -/

theorem onward_ge {start stop : Nat} {placed : Runs} (apart : Apart start stop placed) :
    start ≤ onward start placed := by
  induction placed generalizing start with
  | nil => simp
  | cons p placed ih =>
    obtain ⟨lower, valid, rest⟩ := apart
    have := ih rest
    simp only [onward_cons]
    omega

theorem look_none_of_onward {start stop i : Nat} {placed : Runs}
    (apart : Apart start stop placed) (behind : onward start placed ≤ i) :
    look placed i = none := by
  induction placed generalizing start with
  | nil => rfl
  | cons p placed ih =>
    obtain ⟨_, _, rest⟩ := apart
    have := onward_ge rest
    simp only [onward_cons] at behind
    rw [look_cons, if_neg (by omega)]
    exact ih rest behind

theorem look_of_paints {origin len p : Nat} {runs : Runs} {r : Run}
    (paints : Paints origin len runs r p) :
    look (place origin len 0 runs) p = some r.attributes := by
  obtain ⟨front, back, rfl, reaches⟩ := paints
  have within := (reaches_iff (marks_place origin len front)).mp reaches
  have apart := apart_place origin len 0 front (Nat.zero_le len)
  rw [place_append, look_append, look_none_of_onward apart (by omega), Option.none_or, place,
    if_neg (by omega), look_between, if_pos within]

theorem look_none_of_unpainted {origin len p : Nat} {runs : Runs}
    (unpainted : ∀ r, ¬ Paints origin len runs r p) : look (place origin len 0 runs) p = none := by
  -- Runs are added at the end, where all earlier ones have painted.
  induction runs using List.reverseRecOn with
  | nil => rfl
  | append_singleton front r ih =>
    have earlier : look (place origin len 0 front) p = none := by
      apply ih
      rintro q ⟨front', back, rfl, reaches⟩
      exact unpainted q ⟨front', back ++ [r], by simp, reaches⟩
    have outside := fun reaches => unpainted r ⟨front, [], rfl, reaches⟩
    rw [reaches_iff (marks_place origin len front)] at outside
    rw [place_append, look_append, earlier, Option.none_or]
    simp only [place]
    split
    · rfl
    · simp only [look_between, look_nil, if_neg outside]

theorem paints_first {origin len p : Nat} {runs : Runs} {r : Run} (ascending : Ascending runs)
    (inside : p < len) (first : runs.find? (·.Covers origin p) = some r) :
    Paints origin len runs r p := by
  obtain ⟨covers, front, back, rfl, passed⟩ := List.find?_eq_some_iff_append.mp first
  have covers : r.Covers origin p := by simpa using covers
  refine ⟨front, back, rfl, inside, covers, ?_⟩
  intro q painted
  have member := painting_subset painted
  have order : q.extent.start ≤ r.extent.start :=
    (List.pairwise_append.mp ascending).2.2 q member r (List.mem_cons_self)
  have apart : ¬ q.Covers origin p := by simpa using passed q member
  unfold Run.Covers at covers apart
  omega

theorem covers_of_paints {origin len p : Nat} {runs : Runs} {r : Run}
    (paints : Paints origin len runs r p) : p < len ∧ r ∈ runs ∧ r.Covers origin p := by
  obtain ⟨front, back, rfl, inside, covers, _⟩ := paints
  exact ⟨inside, by simp, covers⟩

theorem place_eq_nil_iff (origin len : Nat) (runs : Runs) :
    place origin len 0 runs = [] ↔ ∀ p < len, ∀ r ∈ runs, ¬ r.Covers origin p := by
  induction runs with
  | nil => simp [place]
  | cons r rest ih =>
    have apart : min (origin + r.extent.stop) len ≤ max (origin + r.extent.start) 0 ↔
        ∀ p < len, ¬ r.Covers origin p := by
      unfold Run.Covers
      constructor
      · intro empty p inside covers
        omega
      · intro outside
        by_contra some
        exact outside (origin + r.extent.start) (by omega) (by omega)
    simp only [place, apart, List.forall_mem_cons]
    split
    · next outside =>
      rw [ih]
      exact ⟨fun rest p inside => ⟨outside p inside, rest p inside⟩,
        fun all p inside => (all p inside).2⟩
    · next some =>
      simp only [reduceCtorEq, false_iff]
      exact fun all => some fun p inside => (all p inside).1

theorem look_edges {start stop : Nat} {placed : Runs} {first last : Run}
    (apart : Apart start stop placed) (isFirst : placed.head? = some first)
    (isLast : placed.getLast? = some last) :
    (look placed first.extent.start).isSome = true ∧
      ∃ p, last.extent.stop = p + 1 ∧ (look placed p).isSome = true := by
  induction placed generalizing start first with
  | nil => cases isFirst
  | cons q placed ih =>
    obtain ⟨_, valid, rest⟩ := apart
    obtain rfl : q = first := by simpa using isFirst
    have here : (look (q :: placed) q.extent.start).isSome = true := by
      rw [look_cons, if_pos ⟨Nat.le_refl _, valid⟩]
      rfl
    refine ⟨here, ?_⟩
    cases placed with
    | nil =>
      obtain rfl : q = last := by simpa using isLast
      refine ⟨q.extent.stop - 1, by omega, ?_⟩
      rw [look_cons, if_pos (by omega)]
      rfl
    | cons t placed =>
      obtain ⟨_, p, ends, found⟩ := ih rest rfl (by simpa using isLast)
      refine ⟨p, ends, ?_⟩
      rw [look_cons]
      split
      · rfl
      · exact found

end Runs

namespace TextBuffer
open Runs

theorem paint_eq_none_iff (b : TextBuffer) (origin : Nat) (runs : Runs) :
    b.paint origin runs = none ↔ ∀ p < b.length, ∀ r ∈ runs, ¬ r.Covers origin p := by
  rw [← place_eq_nil_iff]
  constructor
  · intro none
    by_contra filled
    obtain ⟨edit, after, done⟩ := paint_isSome filled
    rw [none] at done
    cases done
  · intro empty
    simp [paint, empty]

theorem paint_edges {b after : TextBuffer} {origin : Nat} {runs : Runs} {edit : EditRecord}
    (done : b.paint origin runs = some (edit, after)) :
    (look (place origin b.length 0 runs) edit.extent.start).isSome = true ∧
      ∃ p, edit.extent.stop = p + 1 ∧
        (look (place origin b.length 0 runs) p).isSome = true := by
  unfold paint at done
  have apart := apart_place origin b.length 0 runs (Nat.zero_le _)
  dsimp only at done
  split at done
  · next first last isFirst isLast =>
    obtain ⟨rfl, rfl⟩ := Prod.mk.inj (Option.some.inj done)
    exact look_edges apart isFirst isLast
  · cases done

/-- Runs were painted onto a buffer: each shows at the positions that it painted, all others look
as before, and the record spans from the first painted position to the last. -/
structure Painted (b : TextBuffer) (origin : Nat) (runs : Runs) (edit : EditRecord)
    (after : TextBuffer) : Prop where
  text : after.text = b.text
  defaults : after.defaults = b.defaults
  revision : after.revision = b.revision + 1
  kind : edit.kind = .attributes
  replacement : edit.replacementLength = edit.extent.length
  first : ∃ r, Paints origin b.length runs r edit.extent.start
  last : ∃ p r, edit.extent.stop = p + 1 ∧ Paints origin b.length runs r p
  within : ∀ p r, Paints origin b.length runs r p → p ∈ edit.extent
  shown : ∀ p r, Paints origin b.length runs r p →
    SameLook ((after.runAt? p).map (·.attributes)) (some r.attributes)
  kept : ∀ p, (∀ r, ¬ Paints origin b.length runs r p) →
    SameLook ((after.runAt? p).map (·.attributes)) ((b.runAt? p).map (·.attributes))

theorem painted_of_paint {b after : TextBuffer} {origin : Nat} {runs : Runs} {edit : EditRecord}
    (mapped : b.Mapped) (done : b.paint origin runs = some (edit, after)) :
    Painted b origin runs edit after := by
  obtain ⟨window, apart, wide, fits, recorded, painted⟩ := paint_window done
  obtain ⟨canonical, looks⟩ := overlay_window mapped apart wide fits
  obtain ⟨first, last, ends, final⟩ := paint_edges done
  have tiles := (mapped_paint mapped done).1
  have shown (p : Nat) : SameLook ((after.runAt? p).map (·.attributes))
      ((look (place origin b.length 0 runs) p).or ((b.runAt? p).map (·.attributes))) := by
    have here : (after.runAt? p).map (·.attributes) = look after.runs p := at?_attributes tiles p
    have there : (b.runAt? p).map (·.attributes) = look b.runs p := at?_attributes mapped.1 p
    rw [here, there, painted]
    exact looks p
  have painter {p : Nat} (some : (look (place origin b.length 0 runs) p).isSome = true) :
      ∃ r, Paints origin b.length runs r p := by
    by_contra none
    rw [look_none_of_unpainted (not_exists.mp none)] at some
    cases some
  constructor
  case text => rw [painted]
  case defaults => rw [painted]
  case revision => rw [painted]
  case kind => rw [recorded]
  case replacement => rw [recorded]
  case first => exact painter first
  case last =>
    obtain ⟨r, paints⟩ := painter final
    exact ⟨last, r, ends, paints⟩
  case within =>
    intro p r paints
    by_contra outside
    have found := look_of_paints paints
    rw [recorded, Extent.mem_def, not_and_or] at outside
    rw [look_none_of_apart apart (by simpa using outside)] at found
    cases found
  case shown =>
    intro p r paints
    simpa [look_of_paints paints] using shown p
  case kept =>
    intro p unpainted
    simpa [look_none_of_unpainted unpainted] using shown p

theorem Painted.first_run_shows {b after : TextBuffer} {origin : Nat} {runs : Runs}
    {edit : EditRecord} (painted : Painted b origin runs edit after) (ascending : Ascending runs)
    {p : Nat} (inside : p < b.length) :
    SameLook ((after.runAt? p).map (·.attributes))
      (((runs.find? (·.Covers origin p)).or (b.runAt? p)).map (·.attributes)) := by
  cases first : runs.find? (·.Covers origin p) with
  | some r => exact painted.shown p r (paints_first ascending inside first)
  | none =>
    apply painted.kept
    intro r paints
    obtain ⟨_, member, covers⟩ := covers_of_paints paints
    exact List.find?_eq_none.mp first r member (by simpa using covers)

/-- After any history, painting runs onto a buffer shows each of them exactly where it reaches
behind those that painted before it; of runs in ascending order that is the first one over the
position. Painting is no edit exactly if no run lies over the text, and it makes no difference
whether the sums of the positions are exact or stop at a limit not below the length. -/
theorem paint_pointwise (source : Text) (base : Attributes) (changes : List BufferChange)
    (origin : Nat) (runs : Runs) :
    let b := (ofText source base).changeAll changes
    (b.paint origin runs = none ↔ ∀ p < b.length, ∀ r ∈ runs, ¬ r.Covers origin p) ∧
    (b.paint origin runs = none → b.change (.paint origin runs) = b) ∧
    (∀ edit after, b.paint origin runs = some (edit, after) →
      b.change (.paint origin runs) = after ∧ Painted b origin runs edit after ∧
        (Ascending runs → ∀ p < b.length, SameLook ((after.runAt? p).map (·.attributes))
          (((runs.find? (·.Covers origin p)).or (b.runAt? p)).map (·.attributes)))) ∧
    ∀ limit, b.length ≤ limit →
      placeSaturating limit origin b.length 0 runs = place origin b.length 0 runs := by
  intro b
  have mapped : b.Mapped := mapped_changeAll (mapped_ofText source base) changes
  refine ⟨paint_eq_none_iff b origin runs, ?_, ?_, ?_⟩
  · intro none
    simp [TextBuffer.change, none]
  · intro edit after done
    have painted := painted_of_paint mapped done
    refine ⟨by simp [TextBuffer.change, done], painted, ?_⟩
    intro ascending p inside
    exact painted.first_run_shows ascending inside
  · intro limit room
    exact placeSaturating_eq room origin 0 runs

theorem paint_pointwise_overlap :
    let plain : Attributes := .plain .standard
    let red : Attributes := { plain with foreground := some (.rgb 255 0 0) }
    let blue : Attributes := { plain with foreground := some (.rgb 0 0 255) }
    let b := ofText ['a', 'b', 'c', 'd'] plain
    let runs : Runs := [.between 0 2 blue, .between 1 9 red, .between 3 2 blue]
    (∃ edit after, b.paint 1 runs = some (edit, after) ∧ edit.extent = ⟨1, 4⟩ ∧
      Ascending runs ∧ 2 < b.length ∧ runs.find? (·.Covers 1 2) = some (.between 0 2 blue) ∧
      SameLook ((after.runAt? 2).map (·.attributes)) (some blue)) ∧
    (∃ edit after, b.paint 1 runs.reverse = some (edit, after) ∧ edit.extent = ⟨2, 4⟩ ∧
      Paints 1 4 runs.reverse (.between 1 9 red) 2 ∧
      SameLook ((after.runAt? 2).map (·.attributes)) (some red)) ∧
    b.paint 4 runs = none ∧ b.change (.paint 4 runs) = b ∧
      (b.length ≤ 5 ∧ placeSaturating 5 4 b.length 0 runs = place 4 b.length 0 runs) := by
  intro plain red blue b runs
  have paints : Paints 1 4 runs.reverse (.between 1 9 red) 2 :=
    ⟨[.between 3 2 blue], [.between 0 2 blue], rfl, by decide⟩
  obtain ⟨_, _, forward, _⟩ := paint_pointwise ['a', 'b', 'c', 'd'] plain [] 1 runs
  obtain ⟨_, _, backward, _⟩ := paint_pointwise ['a', 'b', 'c', 'd'] plain [] 1 runs.reverse
  obtain ⟨_, nothing, _, sums⟩ := paint_pointwise ['a', 'b', 'c', 'd'] plain [] 4 runs
  refine ⟨⟨_, _, rfl, rfl, by decide, by decide, rfl, ?_⟩, ⟨_, _, rfl, rfl, paints, ?_⟩, rfl, ?_,
    by decide, sums 5 (by decide)⟩
  · exact (forward _ _ rfl).2.2 (by decide) 2 (by decide)
  · exact (backward _ _ rfl).2.1.shown 2 _ paints
  · exact nothing rfl

end TextBuffer

end SyntaxPaint
