import SyntaxPaint.Proofs.Run.Merging

/-!
Canonical runs are determined by the looks of the single positions: a run is the largest interval
around its positions on which all looks are equal, so two canonical lists over the same positions
with equal looks are equal.
-/
namespace SyntaxPaint.Runs

def Uniform (runs : Runs) (x y : Nat) (a : Attributes) : Prop :=
  ∀ j, x ≤ j → j < y → ∃ b, look runs j = some b ∧ (b == a) = true

theorem run_is_largest {start stop x y i : Nat} {runs : Runs} {r : Run}
    (canonical : Canonical start stop runs) (member : r ∈ runs) (inside : i ∈ r.extent)
    (lower : x ≤ i) (upper : i < y) (within : start ≤ x ∧ y ≤ stop)
    (uniform : Uniform runs x y r.attributes) : r.extent.start ≤ x ∧ y ≤ r.extent.stop := by
  obtain ⟨front, back, rfl⟩ := List.append_of_mem member
  obtain ⟨middle, left, first, valid, right⟩ := tiles_append.mp canonical.1
  obtain ⟨_, separated, seam⟩ := separated_append.mp canonical.2
  obtain ⟨here, there⟩ := inside
  constructor
  · by_contra beyond
    rcases List.eq_nil_or_concat front with rfl | ⟨front', q, rfl⟩
    · have equal : start = middle := left
      omega
    · rw [List.concat_eq_append] at left seam uniform
      obtain ⟨middle', _, first', valid', ends⟩ := tiles_append.mp left
      have ends : q.extent.stop = middle := ends
      obtain ⟨b, found, equal⟩ := uniform (r.extent.start - 1) (by omega) (by omega)
      have inQ : q ∈ front' ++ [q] ++ r :: back := by simp
      rw [look_of_mem (by simpa using canonical.1) inQ (by omega) (by omega)] at found
      obtain rfl := Option.some.inj found
      have differ := seam q (by simp) r rfl
      rw [equal] at differ
      cases differ
  · by_contra beyond
    cases back with
    | nil =>
      have equal : r.extent.stop = stop := right
      omega
    | cons s back =>
      obtain ⟨first', valid', _⟩ := right
      obtain ⟨b, found, equal⟩ := uniform r.extent.stop (by omega) (by omega)
      have inS : s ∈ front ++ r :: s :: back := by simp
      rw [look_of_mem canonical.1 inS (by omega) (by omega)] at found
      obtain rfl := Option.some.inj found
      have differ := (separated_cons.mp separated).1 s rfl
      rw [Attributes.beq_symm equal] at differ
      cases differ

theorem look_head {start stop i : Nat} {r : Run} {rest : Runs}
    (tiles : Tiles start stop (r :: rest)) (lower : start ≤ i) (upper : i < r.extent.stop) :
    look (r :: rest) i = some r.attributes := by
  have first := tiles.1
  rw [look_cons, if_pos ⟨by omega, upper⟩]

def EqualLooks (start stop : Nat) (runs others : Runs) : Prop :=
  ∀ i, start ≤ i → i < stop →
    ∃ a b, look runs i = some a ∧ look others i = some b ∧ (a == b) = true

theorem equalLooks_symm {start stop : Nat} {runs others : Runs}
    (equal : EqualLooks start stop runs others) : EqualLooks start stop others runs := by
  intro i lower upper
  obtain ⟨a, b, left, right, same⟩ := equal i lower upper
  exact ⟨b, a, right, left, Attributes.beq_symm same⟩

theorem head_stop_le {start stop : Nat} {r s : Run} {rest rest' : Runs}
    (first : Canonical start stop (r :: rest)) (second : Canonical start stop (s :: rest'))
    (equal : EqualLooks start stop (r :: rest) (s :: rest')) : r.extent.stop ≤ s.extent.stop := by
  have upper := tiles_start_le first.1.2.2
  have valid := first.1.2.1
  have valid' := second.1.2.1
  obtain ⟨a, b, left, right, same⟩ := equal start (Nat.le_refl _) (by omega)
  rw [look_head first.1 (Nat.le_refl _) valid] at left
  rw [look_head second.1 (Nat.le_refl _) valid'] at right
  obtain rfl := Option.some.inj left
  obtain rfl := Option.some.inj right
  have here : start ∈ s.extent := ⟨Nat.le_of_eq second.1.1, valid'⟩
  refine (run_is_largest second (List.mem_cons_self) here (Nat.le_refl _) valid
    ⟨Nat.le_refl _, upper⟩ ?_).2
  intro j lower before
  obtain ⟨a, b, left', right', same'⟩ := equal j lower (by omega)
  rw [look_head first.1 lower before] at left'
  obtain rfl := Option.some.inj left'
  exact ⟨b, right', Attributes.beq_trans (Attributes.beq_symm same') same⟩

theorem canonical_unique {start stop : Nat} {runs others : Runs}
    (first : Canonical start stop runs) (second : Canonical start stop others)
    (equal : EqualLooks start stop runs others) : (runs == others) = true := by
  induction runs generalizing start others with
  | nil =>
    have none : others = [] := (tiles_eq_nil_iff second.1).mpr first.1
    rw [none]
    rfl
  | cons r rest ih =>
    cases others with
    | nil =>
      have ends : start = stop := second.1
      have := tiles_start_le first.1.2.2
      have := first.1.2.1
      omega
    | cons s rest' =>
      have upper := head_stop_le first second equal
      have lower := head_stop_le second first (equalLooks_symm equal)
      have ends : r.extent.stop = s.extent.stop := Nat.le_antisymm upper lower
      have room := tiles_start_le first.1.2.2
      have valid := first.1.2.1
      have valid' := second.1.2.1
      have tails : EqualLooks r.extent.stop stop rest rest' := by
        intro i reached before
        obtain ⟨a, b, left, right, same⟩ := equal i (by omega) before
        rw [look_cons, if_neg (by omega)] at left
        rw [look_cons, if_neg (by omega)] at right
        exact ⟨a, b, left, right, same⟩
      have second' := canonical_tail second
      rw [← ends] at second'
      have rests := ih (canonical_tail first) second' tails
      obtain ⟨a, b, left, right, same⟩ := equal start (Nat.le_refl _) (by omega)
      rw [look_head first.1 (Nat.le_refl _) valid] at left
      rw [look_head second.1 (Nat.le_refl _) valid'] at right
      obtain rfl := Option.some.inj left
      obtain rfl := Option.some.inj right
      have extents : r.extent = s.extent := by
        have starts : r.extent.start = s.extent.start := first.1.1.trans second.1.1.symm
        cases hr : r.extent
        cases hs : s.extent
        simp_all
      have heads : (r == s) = true := by
        show (r.extent == s.extent && r.attributes == s.attributes) = true
        simp [extents, same]
      rw [List.cons_beq_cons, heads, rests]
      rfl

theorem beq_encode {labels : List Attributes} {runs : Runs}
    (canonical : Canonical 0 labels.length runs) (definite : ∀ a ∈ labels, a.isDefinite = true)
    (looks : ∀ k < labels.length, SameLook (look runs k) labels[k]?) :
    (runs == encode labels) = true := by
  obtain ⟨encoded, label⟩ := encode_spec labels
  refine canonical_unique canonical encoded ?_
  intro k _ upper
  have here : labels[k]? = some labels[k] := List.getElem?_eq_getElem upper
  have certain := definite labels[k] (List.getElem_mem upper)
  have left := looks k upper
  have right := label k
  rw [here] at left right
  obtain ⟨a, found, equal⟩ := beq_of_sameLook certain left
  obtain ⟨b, found', equal'⟩ := beq_of_sameLook certain right
  exact ⟨a, b, found, found', Attributes.beq_trans equal (Attributes.beq_symm equal')⟩

end SyntaxPaint.Runs
