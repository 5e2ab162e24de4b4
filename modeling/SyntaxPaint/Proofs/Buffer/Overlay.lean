import SyntaxPaint.Buffer.Edit
import SyntaxPaint.Proofs.Run.Lookup
import SyntaxPaint.Proofs.Run.Merging

/-!
What splicing and overlaying do to canonical runs. The rebuilding of a window walks the placed runs
and the old ones together; `rebuild_window` carries it with the runs built so far, which are
canonical up to the cursor, and the old runs left, which tile the window from somewhere before it.
-/
namespace SyntaxPaint.Runs

theorem splice_seam {stop count : Nat} {runs : Runs} {e : Extent} (a : Attributes)
    (canonical : Canonical 0 stop runs) (order : e.start ≤ e.stop) (fits : e.stop ≤ stop) :
    ∃ rest, Canonical e.start (stop + count - e.length) rest ∧
      runs.splice e count a =
        mergeAt (runs.cut e.start).1.length ((runs.cut e.start).1 ++ rest) := by
  obtain ⟨_, right⟩ := canonical_cut canonical (Nat.zero_le e.start) (Nat.le_trans order fits)
  obtain ⟨_, behind⟩ := canonical_cut right order fits
  have moved : Canonical (e.stop + count - e.length) (stop + count - e.length)
      (shift e.length count (cut e.stop (cut e.start runs).2).2) :=
    canonical_shift behind (by simp only [Extent.length]; omega)
  have seam : e.stop + count - e.length = e.start + count := by
    simp only [Extent.length]; omega
  rw [seam] at moved
  unfold splice
  by_cases none : count = 0
  · simp only [none, beq_self_eq_true, if_true]
    rw [none, Nat.add_zero] at moved
    exact ⟨_, moved, rfl⟩
  · simp only [beq_iff_eq, none, if_false]
    rw [mergeAt_seam]
    refine ⟨_, canonical_join ⟨rfl, ?_, moved.1⟩ moved.2, rfl⟩
    simp only [Run.between]; omega

theorem canonical_splice {stop count : Nat} {runs : Runs} {e : Extent} {a : Attributes}
    (canonical : Canonical 0 stop runs) (order : e.start ≤ e.stop) (fits : e.stop ≤ stop) :
    Canonical 0 (stop + count - e.length) (runs.splice e count a) := by
  obtain ⟨left, _⟩ := canonical_cut canonical (Nat.zero_le e.start) (Nat.le_trans order fits)
  obtain ⟨rest, right, spliced⟩ := splice_seam a canonical order fits
  rw [spliced]
  exact canonical_seam left right

theorem look_splice_before {stop count : Nat} {runs : Runs} {e : Extent} (a : Attributes)
    (canonical : Canonical 0 stop runs) (order : e.start ≤ e.stop) (fits : e.stop ≤ stop) {i : Nat}
    (before : i < e.start) : SameLook (look (runs.splice e count a) i) (look runs i) := by
  obtain ⟨left, _⟩ := tiles_cut canonical.1 (Nat.zero_le e.start) (Nat.le_trans order fits)
  obtain ⟨rest, right, spliced⟩ := splice_seam a canonical order fits
  rw [spliced]
  have same := look_seam left right.1 i
  rwa [look_append, look_none_of_tiles right.1 (Or.inl before), Option.or_none,
    (look_cut canonical.1 e.start i).1, if_pos before] at same

def Apart (start stop : Nat) : Runs → Prop
  | [] => start ≤ stop
  | r :: rest => start ≤ r.extent.start ∧ r.extent.start < r.extent.stop ∧
      Apart r.extent.stop stop rest

theorem apart_le {start stop : Nat} {placed : Runs} (apart : Apart start stop placed) :
    start ≤ stop := by
  induction placed generalizing start with
  | nil => exact apart
  | cons p placed ih =>
    have := ih apart.2.2
    have := apart.1
    have := apart.2.1
    omega

theorem look_none_of_apart {start stop i : Nat} {placed : Runs} (apart : Apart start stop placed)
    (outside : i < start ∨ stop ≤ i) : look placed i = none := by
  induction placed generalizing start with
  | nil => rfl
  | cons p placed ih =>
    obtain ⟨lower, valid, rest⟩ := apart
    have := apart_le rest
    rw [look_cons, if_neg (by omega)]
    exact ih rest (by omega)

theorem apart_place (origin len cursor : Nat) (runs : Runs) (room : cursor ≤ len) :
    Apart cursor len (place origin len cursor runs) := by
  induction runs generalizing cursor with
  | nil => exact room
  | cons r rest ih =>
    simp only [place]
    split
    · exact ih cursor room
    · next some =>
      refine ⟨by simp only [Run.between]; omega, by simp only [Run.between]; omega, ?_⟩
      exact ih (min (origin + r.extent.stop) len) (Nat.min_le_right _ _)

theorem apart_last {start stop : Nat} {placed : Runs} {last : Run}
    (apart : Apart start stop placed) (isLast : placed.getLast? = some last) :
    last.extent.stop ≤ stop ∧ Apart start last.extent.stop placed := by
  induction placed generalizing start with
  | nil => cases isLast
  | cons p placed ih =>
    obtain ⟨lower, valid, rest⟩ := apart
    cases placed with
    | nil =>
      obtain rfl : p = last := by simpa using isLast
      exact ⟨rest, lower, valid, Nat.le_refl _⟩
    | cons q placed =>
      obtain ⟨upper, rest'⟩ := ih rest (by simpa using isLast)
      exact ⟨upper, lower, valid, rest'⟩

theorem apart_window {start stop : Nat} {placed : Runs} {first last : Run}
    (apart : Apart start stop placed) (isFirst : placed.head? = some first)
    (isLast : placed.getLast? = some last) :
    start ≤ first.extent.start ∧ last.extent.stop ≤ stop ∧
      Apart first.extent.start last.extent.stop placed := by
  cases placed with
  | nil => cases isFirst
  | cons p placed =>
    obtain rfl : p = first := by simpa using isFirst
    obtain ⟨upper, lower, valid, rest⟩ := apart_last apart isLast
    exact ⟨lower, upper, Nat.le_refl _, valid, rest⟩

/- Rebuilding a window. -/

theorem passed_over {start stop pos : Nat} {old : Runs} (tiles : Tiles start stop old)
    (lower : start ≤ pos) :
    ∃ start', start' ≤ pos ∧ Tiles start' stop (old.dropWhile (·.extent.stop ≤ pos)) ∧
      (∀ r ∈ (old.dropWhile (·.extent.stop ≤ pos)).head?, pos < r.extent.stop) ∧
      ∀ i, pos ≤ i → look (old.dropWhile (·.extent.stop ≤ pos)) i = look old i := by
  induction old generalizing start with
  | nil =>
    refine ⟨start, lower, tiles, ?_, fun i _ => rfl⟩
    intro r none
    cases none
  | cons r old ih =>
    obtain ⟨first, valid, tail⟩ := tiles
    by_cases before : r.extent.stop ≤ pos
    · rw [List.dropWhile_cons_of_pos (by simpa using before)]
      obtain ⟨start', lower', tiles', ahead, looks⟩ := ih tail before
      refine ⟨start', lower', tiles', ahead, ?_⟩
      intro i behind
      rw [looks i behind, look_cons, if_neg (by omega)]
    · rw [List.dropWhile_cons_of_neg (by simpa using before)]
      refine ⟨start, lower, ⟨first, valid, tail⟩, ?_, fun i _ => rfl⟩
      intro s isHead
      obtain rfl : r = s := by simpa using isHead
      omega

theorem look_or_behind {start middle i : Nat} {built : Runs} {a b : Option Attributes}
    (tiles : Tiles start middle built) (lower : start ≤ i) (agree : middle ≤ i → a = b) :
    (look built i).or a = (look built i).or b := by
  by_cases before : i < middle
  · obtain ⟨c, found⟩ := look_some_of_tiles tiles lower before
    simp [found]
  · rw [agree (by omega)]

/-- The runs built so far, continued up to `next` by what the old ones say, and the old runs that
are left. -/
structure Fills (first next stop : Nat) (built old : Runs) (result : Runs × Runs) : Prop where
  canonical : Canonical first next result.1
  looks : ∀ i, first ≤ i →
    SameLook (look result.1 i) ((look built i).or (if i < next then look old i else none))
  rest : ∃ start, start ≤ next ∧ Tiles start stop result.2
  later : ∀ i, next ≤ i → look result.2 i = look old i

theorem fills_nothing {first next start stop : Nat} {built old : Runs}
    (canonical : Canonical first next built) (tiles : Tiles start stop old) (room : start ≤ next) :
    Fills first next stop built old (built, old) := by
  constructor
  · exact canonical
  · intro i lower
    apply sameLook_of_eq
    have kept : look built i = (look built i).or none := Option.or_none.symm
    rw [kept, Option.or_assoc]
    apply look_or_behind canonical.1 lower
    intro reached
    rw [if_neg (by omega), Option.none_or]
  · exact ⟨start, room, tiles⟩
  · intro i _
    rfl

theorem copy_gap {first start stop cursor next : Nat} {built old : Runs}
    (canonical : Canonical first (max start cursor) built) (tiles : Tiles start stop old)
    (ahead : ∀ r ∈ old.head?, cursor < r.extent.stop) (some : cursor < next)
    (room : start ≤ next) (fits : next ≤ stop) :
    Fills first next stop built old (copy ⟨cursor, next⟩ built old) := by
  induction old generalizing start built with
  | nil =>
    have equal : start = stop := tiles
    have here : max start cursor = next := by omega
    rw [here] at canonical
    exact fills_nothing canonical tiles room
  | cons r old ih =>
    obtain ⟨starts, valid, tail⟩ := tiles
    have behind : cursor < r.extent.stop := ahead r rfl
    simp only [copy]
    by_cases inside : r.extent.start < next
    · rw [if_pos inside]
      let piece : Run :=
        .between (max r.extent.start cursor) (min r.extent.stop next) r.attributes
      have follows : piece.extent.start = max start cursor := by
        simp only [piece, Run.between, starts]
      have nonempty : max start cursor < piece.extent.stop := by
        simp only [piece, Run.between]; omega
      have pushed : Canonical first piece.extent.stop (built.push piece) :=
        canonical_push canonical follows nonempty
      have looks := look_push canonical.1 follows nonempty
      by_cases across : next < r.extent.stop
      · rw [if_pos across]
        have ends : piece.extent.stop = next := by
          simp only [piece, Run.between]; omega
        rw [ends] at pushed
        constructor
        · exact pushed
        · intro i lower
          apply sameLook_trans (looks i)
          apply sameLook_of_eq
          apply look_or_behind canonical.1 lower
          intro reached
          rw [look_cons, look_cons, look_nil, ends, follows]
          split_ifs <;> first | rfl | omega
        · exact ⟨start, room, starts, valid, tail⟩
        · intro i _
          rfl
      · rw [if_neg across]
        have ends : piece.extent.stop = r.extent.stop := by
          simp only [piece, Run.between]; omega
        have onward : max r.extent.stop cursor = piece.extent.stop := by omega
        rw [← onward] at pushed
        have further : ∀ s ∈ old.head?, cursor < s.extent.stop := by
          intro s isHead
          have := (tiles_member tail (List.mem_of_mem_head? isHead)).2.1
          have := (tiles_member tail (List.mem_of_mem_head? isHead)).1
          omega
        have filled := ih pushed tail further (by omega)
        constructor
        · exact filled.canonical
        · intro i lower
          apply sameLook_trans (filled.looks i lower)
          apply sameLook_trans (sameLook_or (looks i) (sameLook_refl _))
          apply sameLook_of_eq
          rw [Option.or_assoc]
          apply look_or_behind canonical.1 lower
          intro reached
          rw [look_cons, look_cons, look_nil, ends, follows]
          split_ifs <;> first | rfl | omega
        · exact filled.rest
        · intro i beyond
          rw [filled.later i beyond, look_cons, if_neg (by omega)]
    · rw [if_neg inside]
      have here : max start cursor = next := by omega
      rw [here] at canonical
      exact fills_nothing canonical ⟨starts, valid, tail⟩ room

theorem fillGap_spec {first start stop cursor next : Nat} {built old : Runs}
    (canonical : Canonical first cursor built) (tiles : Tiles start stop old)
    (within : start ≤ cursor) (order : cursor ≤ next) (fits : next ≤ stop) :
    Fills first next stop built old (fillGap ⟨cursor, next⟩ built old) := by
  unfold fillGap
  simp only [Extent.isEmpty, decide_eq_true_eq]
  by_cases empty : next ≤ cursor
  · rw [if_pos empty]
    have here : cursor = next := by omega
    rw [here] at canonical
    exact fills_nothing canonical tiles (by omega)
  · rw [if_neg empty]
    obtain ⟨start', before, tiles', ahead, same⟩ := passed_over tiles within
    have here : max start' cursor = cursor := by omega
    have canonical' : Canonical first (max start' cursor) built := by rwa [here]
    have filled := copy_gap canonical' tiles' ahead (by omega) (by omega) fits
    constructor
    · exact filled.canonical
    · intro i lower
      apply sameLook_trans (filled.looks i lower)
      apply sameLook_of_eq
      apply look_or_behind canonical.1 lower
      intro reached
      rw [same i reached]
    · exact filled.rest
    · intro i beyond
      rw [filled.later i beyond, same i (by omega)]

theorem rebuild_window {first start stop cursor : Nat} {built old placed : Runs}
    (canonical : Canonical first cursor built) (tiles : Tiles start stop old)
    (within : start ≤ cursor) (apart : Apart cursor stop placed) :
    Canonical first stop (rebuild stop cursor built old placed) ∧
      ∀ i, first ≤ i → SameLook (look (rebuild stop cursor built old placed) i)
        ((look built i).or ((look placed i).or (look old i))) := by
  induction placed generalizing start cursor built old with
  | nil =>
    have filled := fillGap_spec canonical tiles within apart (Nat.le_refl _)
    constructor
    · exact filled.canonical
    · intro i lower
      apply sameLook_trans (filled.looks i lower)
      apply sameLook_of_eq
      rw [look_nil, Option.none_or]
      split
      · rfl
      · rw [look_none_of_tiles tiles (by omega)]
  | cons p placed ih =>
    obtain ⟨lower, valid, rest⟩ := apart
    have room := apart_le rest
    have filled := fillGap_spec canonical tiles within lower (by omega)
    simp only [rebuild]
    generalize fillGap ⟨cursor, p.extent.start⟩ built old = gap at filled ⊢
    obtain ⟨start', before, tiles'⟩ := filled.rest
    obtain ⟨canonical', looks⟩ :=
      ih (canonical_push filled.canonical rfl valid) tiles' (by omega) rest
    constructor
    · exact canonical'
    · intro i reached
      have pushed := look_push filled.canonical.1 rfl valid i
      apply sameLook_trans (looks i reached)
      apply sameLook_trans (sameLook_or pushed (sameLook_refl _))
      rw [Option.or_assoc]
      apply sameLook_trans (sameLook_or (filled.looks i reached) (sameLook_refl _))
      apply sameLook_of_eq
      rw [Option.or_assoc]
      apply look_or_behind canonical.1 reached
      intro behind
      have split : look (p :: placed) i = (look [p] i).or (look placed i) :=
        look_append [p] placed i
      by_cases gap : i < p.extent.start
      · obtain ⟨a, found⟩ := look_some_of_tiles tiles (i := i) (by omega) (by omega)
        have later : Apart p.extent.start stop (p :: placed) := ⟨Nat.le_refl _, valid, rest⟩
        rw [if_pos gap, found, look_none_of_apart later (Or.inl gap)]
        rfl
      · rw [if_neg gap, Option.none_or, split, Option.or_assoc, filled.later i (by omega)]

/-- Runs laid over others show in front of them, and the result is canonical again. -/
theorem overlay_window {stop : Nat} {runs placed : Runs} {window : Extent}
    (canonical : Canonical 0 stop runs) (apart : Apart window.start window.stop placed)
    (some : window.start < window.stop) (fits : window.stop ≤ stop) :
    Canonical 0 stop (runs.overlay window placed) ∧
      ∀ i, SameLook (look (runs.overlay window placed) i) ((look placed i).or (look runs i)) := by
  have reached : window.start ≤ stop := by omega
  obtain ⟨left, right⟩ := canonical_cut canonical (Nat.zero_le window.start) reached
  obtain ⟨inner, behind⟩ := canonical_cut right (Nat.le_of_lt some) fits
  have before (i : Nat) := (look_cut canonical.1 window.start i).1
  have rest (i : Nat) := (look_cut canonical.1 window.start i).2
  have old (i : Nat) := (look_cut right.1 window.stop i).1
  have after (i : Nat) := (look_cut right.1 window.stop i).2
  obtain ⟨rebuilt, looks⟩ :=
    rebuild_window (canonical_nil window.start) inner.1 (Nat.le_refl _) apart
  have outer := canonical_seam rebuilt behind
  have outerLooks := look_seam rebuilt.1 behind.1
  unfold overlay
  dsimp only
  generalize rebuild window.stop window.start []
    (cut window.stop (cut window.start runs).2).1 placed = built at *
  have nonempty : built ≠ [] := by
    rw [Ne, tiles_eq_nil_iff rebuilt.1]
    omega
  obtain ⟨k, count⟩ := Nat.exists_eq_succ_of_ne_zero
    (Nat.ne_of_gt (List.length_pos_iff.mpr nonempty))
  rw [count] at outer outerLooks
  rw [count, Nat.succ_eq_add_one, mergeAt_behind]
  constructor
  · exact canonical_seam left outer
  · intro i
    apply sameLook_trans (look_seam left.1 outer.1 i)
    rw [look_append]
    apply sameLook_trans (sameLook_or (sameLook_refl _) (outerLooks i))
    rw [look_append, before, after]
    by_cases early : i < window.start
    · obtain ⟨a, found⟩ := look_some_of_tiles canonical.1 (Nat.zero_le i) (by omega)
      rw [if_pos early, found, look_none_of_apart apart (Or.inl early)]
      exact sameLook_refl _
    · rw [if_neg early, Option.none_or]
      by_cases late : window.stop ≤ i
      · rw [if_pos late, rest, if_pos (by omega), look_none_of_tiles rebuilt.1 (Or.inr late),
          look_none_of_apart apart (Or.inr late)]
        exact sameLook_refl _
      · rw [if_neg late, Option.or_none]
        refine sameLook_trans (looks i (by omega)) (sameLook_of_eq ?_)
        rw [look_nil, Option.none_or, old, if_pos (by omega), rest, if_pos (by omega)]

end SyntaxPaint.Runs
