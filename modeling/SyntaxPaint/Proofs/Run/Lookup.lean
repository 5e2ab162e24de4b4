import SyntaxPaint.Proofs.Run.Tiling

/-!
The search by halving finds, among runs that tile, the first run that contains the position. What
carries the halving is that the runs which stop by a position stand in front of all others.
-/
namespace SyntaxPaint.Runs

theorem stopsBy_iff {runs : Runs} {pos i : Nat} :
    runs.stopsBy pos i = true ↔ ∃ r, runs[i]? = some r ∧ r.extent.stop ≤ pos := by
  simp [stopsBy, Option.any_eq_true]

theorem stopsBy_downward {start stop pos i j : Nat} {runs : Runs} (tiles : Tiles start stop runs)
    (order : j ≤ i) (stops : runs.stopsBy pos i = true) : runs.stopsBy pos j = true := by
  obtain ⟨r, found, before⟩ := stopsBy_iff.mp stops
  rcases Nat.eq_or_lt_of_le order with rfl | earlier
  · exact stops
  · obtain ⟨valid, rfl⟩ := List.getElem?_eq_some_iff.mp found
    have split : runs = runs.take i ++ runs.drop i := (List.take_append_drop i runs).symm
    rw [split] at tiles
    obtain ⟨middle, left, right⟩ := tiles_append.mp tiles
    rw [List.drop_eq_getElem_cons valid] at right
    have short : j < runs.length := by omega
    have member : runs[j] ∈ runs.take i := List.mem_take_iff_getElem.mpr ⟨j, by omega, rfl⟩
    have bounds := tiles_member left member
    have first := right.1
    have nonempty := right.2.1
    exact stopsBy_iff.mpr ⟨_, List.getElem?_eq_getElem (by omega), by omega⟩

theorem narrow_bounds {start stop : Nat} {runs : Runs} (tiles : Tiles start stop runs)
    (pos base size : Nat) (lower : base = 0 ∨ runs.stopsBy pos base = true)
    (upper : runs.stopsBy pos (base + size) = false) (some : 0 < size) :
    (runs.narrow pos base size = 0 ∨ runs.stopsBy pos (runs.narrow pos base size) = true) ∧
      runs.stopsBy pos (runs.narrow pos base size + 1) = false := by
  induction size using Nat.strongRecOn generalizing base with
  | ind size ih =>
    rw [narrow]
    by_cases small : size ≤ 1
    · have one : size = 1 := by omega
      rw [if_pos small]
      rw [one] at upper
      exact ⟨lower, upper⟩
    · rw [if_neg small]
      by_cases stops : runs.stopsBy pos (base + size / 2) = true
      · rw [if_pos stops]
        have whole : base + size / 2 + (size - size / 2) = base + size := by omega
        exact ih (size - size / 2) (by omega) (base + size / 2) (Or.inr stops)
          (by rw [whole]; exact upper) (by omega)
      · rw [if_neg stops]
        refine ih (size - size / 2) (by omega) base lower ?_ (by omega)
        -- For an odd size the new end lies one behind the run that was looked at.
        rw [Bool.eq_false_iff]
        intro beyond
        exact stops (stopsBy_downward tiles (by omega) beyond)

theorem firstBehind_bounds {start stop : Nat} {runs : Runs} (tiles : Tiles start stop runs)
    (pos : Nat) :
    (∀ j < runs.firstBehind pos, runs.stopsBy pos j = true) ∧
      runs.stopsBy pos (runs.firstBehind pos) = false := by
  have outside : ∀ i, runs.length ≤ i → runs.stopsBy pos i = false := by
    intro i beyond
    simp [stopsBy, List.getElem?_eq_none beyond]
  unfold firstBehind
  by_cases empty : runs.length = 0
  · have none : runs.stopsBy pos (runs.narrow pos 0 runs.length) = false := outside _ (by omega)
    simp only [none, Bool.false_eq_true, if_false]
    refine ⟨?_, trivial⟩
    intro j before
    rw [narrow, if_pos (by omega)] at before
    omega
  · obtain ⟨first, behind⟩ := narrow_bounds tiles pos 0 runs.length (Or.inl rfl)
      (outside _ (by omega)) (by omega)
    by_cases stops : runs.stopsBy pos (runs.narrow pos 0 runs.length) = true
    · rw [if_pos stops]
      refine ⟨fun j before => ?_, behind⟩
      exact stopsBy_downward tiles (by omega) stops
    · rw [if_neg stops]
      have zero : runs.narrow pos 0 runs.length = 0 := by
        rcases first with zero | stops'
        · exact zero
        · exact absurd stops' stops
      refine ⟨fun j before => by omega, by simpa using stops⟩

theorem at?_eq_find? {start stop : Nat} {runs : Runs} (tiles : Tiles start stop runs) (pos : Nat) :
    runs.at? pos = runs.find? (·.extent.contains pos) := by
  obtain ⟨before, behind⟩ := firstBehind_bounds tiles pos
  unfold at?
  generalize runs.firstBehind pos = k at before behind
  have passed : (runs.take k).find? (·.extent.contains pos) = none := by
    rw [List.find?_eq_none]
    intro r member
    obtain ⟨j, valid, rfl⟩ := List.mem_take_iff_getElem.mp member
    obtain ⟨s, found, stops⟩ := stopsBy_iff.mp (before j (by omega))
    obtain ⟨_, rfl⟩ := List.getElem?_eq_some_iff.mp found
    simp only [contains_eq, decide_eq_true_eq]
    omega
  have split : runs = runs.take k ++ runs.drop k := (List.take_append_drop k runs).symm
  rw [← List.head?_drop]
  conv_rhs => rw [split, List.find?_append, passed, Option.none_or]
  rw [split] at tiles
  obtain ⟨middle, _, right⟩ := tiles_append.mp tiles
  cases rest : runs.drop k with
  | nil => rfl
  | cons r rest' =>
    rw [rest] at right
    have found : runs[k]? = some r := by rw [← List.head?_drop, rest]; rfl
    have beyond : pos < r.extent.stop := by
      rw [Bool.eq_false_iff] at behind
      refine Nat.lt_of_not_le fun stops => behind (stopsBy_iff.mpr ⟨r, found, stops⟩)
    simp only [List.head?_cons, List.find?_cons]
    by_cases inside : r.extent.contains pos = true
    · simp [inside]
    · have later : rest'.find? (·.extent.contains pos) = none := by
        rw [List.find?_eq_none]
        intro s member
        have := (tiles_member right.2.2 member).1
        simp only [contains_eq, decide_eq_true_eq]
        omega
      simp [inside, later]

theorem at?_attributes {start stop : Nat} {runs : Runs} (tiles : Tiles start stop runs)
    (pos : Nat) : (runs.at? pos).map (·.attributes) = look runs pos := by
  rw [at?_eq_find? tiles, look]

theorem at?_eq_some_iff {start stop pos : Nat} {runs : Runs} (tiles : Tiles start stop runs)
    {r : Run} : runs.at? pos = some r ↔ r ∈ runs ∧ pos ∈ r.extent := by
  rw [at?_eq_find? tiles]
  constructor
  · intro found
    have inside := List.find?_some found
    exact ⟨List.mem_of_find?_eq_some found, Extent.contains_iff.mp inside⟩
  · rintro ⟨member, inside⟩
    obtain ⟨front, back, rfl⟩ := List.append_of_mem member
    obtain ⟨middle, left, first, valid, right⟩ := tiles_append.mp tiles
    have front_none : front.find? (·.extent.contains pos) = none := by
      rw [List.find?_eq_none]
      intro s earlier
      have := (tiles_member left earlier).2.2
      have := inside.1
      simp only [contains_eq, decide_eq_true_eq]
      omega
    rw [List.find?_append, front_none, Option.none_or, List.find?_cons,
      Extent.contains_iff.mpr inside]

theorem at?_isSome_iff {start stop pos : Nat} {runs : Runs} (tiles : Tiles start stop runs) :
    (runs.at? pos).isSome = true ↔ start ≤ pos ∧ pos < stop := by
  rw [← Option.isSome_map (f := (·.attributes)), at?_attributes tiles]
  constructor
  · intro found
    by_contra outside
    rw [look_none_of_tiles tiles (by omega)] at found
    cases found
  · rintro ⟨lower, upper⟩
    obtain ⟨a, found⟩ := look_some_of_tiles tiles lower upper
    rw [found]
    rfl

end SyntaxPaint.Runs
