import SyntaxPaint.Proofs.Run.Merging
import Mathlib.Data.List.Forall2

/-!
Runs as the list of the attributes of single characters. Cutting runs cuts that list and moving them
leaves it alone. Merging keeps it up to attributes that compare equal, because a merged run has the
attributes of its front.
-/
namespace SyntaxPaint.Runs

abbrev AlikeLists (labels others : List Attributes) : Prop :=
  List.Forall₂ Attributes.Alike labels others

theorem alikeLists_refl (labels : List Attributes) : AlikeLists labels labels :=
  List.forall₂_same.mpr fun a _ => Attributes.alike_refl a

theorem alikeLists_trans {first second third : List Attributes} (left : AlikeLists first second)
    (right : AlikeLists second third) : AlikeLists first third := by
  induction left generalizing third with
  | nil => exact right
  | cons alike _ ih =>
    cases right with
    | cons alike' tail => exact .cons (Attributes.alike_trans alike alike') (ih tail)

theorem alikeLists_replicate {a b : Attributes} (alike : a.Alike b) (n : Nat) :
    AlikeLists (List.replicate n a) (List.replicate n b) := by
  induction n with
  | zero => exact .nil
  | succ n ih => exact .cons alike ih

@[simp] theorem expand_nil : expand [] = [] := rfl

@[simp] theorem expand_cons (r : Run) (rest : Runs) :
    expand (r :: rest) = List.replicate r.extent.length r.attributes ++ expand rest := rfl

theorem expand_append (front back : Runs) :
    expand (front ++ back) = expand front ++ expand back := by
  simp [expand]

theorem length_expand {start stop : Nat} {runs : Runs} (tiles : Tiles start stop runs) :
    (expand runs).length = stop - start := by
  induction runs generalizing start with
  | nil =>
    have equal : start = stop := tiles
    simp [equal]
  | cons r rest ih =>
    obtain ⟨first, valid, tail⟩ := tiles
    have room := tiles_start_le tail
    simp only [expand_cons, List.length_append, List.length_replicate, ih tail, Extent.length]
    omega

/-- The attributes in a list of runs are those that the single positions look up. -/
theorem getElem?_expand {start stop : Nat} {runs : Runs} (tiles : Tiles start stop runs) (i : Nat) :
    (expand runs)[i]? = look runs (start + i) := by
  induction runs generalizing start i with
  | nil => simp
  | cons r rest ih =>
    obtain ⟨first, valid, tail⟩ := tiles
    simp only [expand_cons, look_cons]
    by_cases inside : i < r.extent.length
    · have here : r.extent.start ≤ start + i ∧ start + i < r.extent.stop := by
        simp only [Extent.length] at inside
        omega
      rw [if_pos here, List.getElem?_append_left (by simpa using inside)]
      simp [inside]
    · have there : ¬ (r.extent.start ≤ start + i ∧ start + i < r.extent.stop) := by
        simp only [Extent.length] at inside
        omega
      have onward : r.extent.stop + (i - r.extent.length) = start + i := by
        simp only [Extent.length] at inside ⊢
        omega
      rw [if_neg there, List.getElem?_append_right (by simpa using inside), List.length_replicate,
        ih tail, onward]

theorem expand_cut {start stop pos : Nat} {runs : Runs} (tiles : Tiles start stop runs)
    (lower : start ≤ pos) :
    expand (runs.cut pos).1 = (expand runs).take (pos - start) ∧
      expand (runs.cut pos).2 = (expand runs).drop (pos - start) := by
  induction runs generalizing start with
  | nil => simp [cut]
  | cons r rest ih =>
    obtain ⟨first, valid, tail⟩ := tiles
    simp only [cut]
    split
    · next before =>
      obtain ⟨left, right⟩ := ih tail before
      have whole : pos - start = r.extent.length + (pos - r.extent.stop) := by
        simp only [Extent.length]
        omega
      simp [left, right, whole, List.take_append, List.drop_append]
    · split
      · next across =>
        have front : (r.withStop pos).extent.length = pos - start := by
          simp [Run.withStop, Extent.length, first]
        have back : (r.withStart pos).extent.length = r.extent.length - (pos - start) := by
          simp only [Run.withStart, Extent.length]
          omega
        have within : pos - start ≤ r.extent.length := by
          simp only [Extent.length]
          omega
        simp only [expand_cons, expand_nil, front, back, List.take_append, List.drop_append,
          List.take_replicate, List.drop_replicate, List.length_replicate,
          Nat.sub_eq_zero_of_le within, Nat.min_eq_left within, List.take_zero, List.drop_zero]
        simp [Run.withStop, Run.withStart]
      · have here : pos - start = 0 := by omega
        simp [here]

theorem expand_shift {start stop removed added : Nat} {runs : Runs} (tiles : Tiles start stop runs)
    (room : removed ≤ start) : expand (shift removed added runs) = expand runs := by
  induction runs generalizing start with
  | nil => rfl
  | cons r rest ih =>
    obtain ⟨first, valid, tail⟩ := tiles
    have later : expand (shift removed added rest) = expand rest := ih tail (by omega)
    have length : r.extent.stop + added - removed - (r.extent.start + added - removed) =
        r.extent.stop - r.extent.start := by omega
    simp only [shift, List.map_cons, expand_cons, Extent.length, length]
    rw [← later, shift]

/- Merging. -/

theorem tiles_join {start stop : Nat} {r : Run} {after : Runs}
    (tiles : Tiles start stop (r :: after)) : Tiles start stop (join r after) := by
  cases after with
  | nil => exact tiles
  | cons s rest =>
    obtain ⟨first, valid, follows, valid', tail⟩ := tiles
    simp only [join]
    split
    · exact ⟨first, Nat.lt_trans valid valid', tail⟩
    · exact ⟨first, valid, follows, valid', tail⟩

theorem tiles_mergeAt {start stop : Nat} {runs : Runs} (tiles : Tiles start stop runs) (i : Nat) :
    Tiles start stop (mergeAt i runs) := by
  induction runs generalizing start i with
  | nil => cases i <;> exact tiles
  | cons r rest ih =>
    match i with
    | 0 => exact tiles
    | 1 => exact tiles_join tiles
    | i + 2 => exact ⟨tiles.1, tiles.2.1, ih tiles.2.2 (i + 1)⟩

theorem expand_join {start stop : Nat} {r : Run} {after : Runs}
    (tiles : Tiles start stop (r :: after)) :
    AlikeLists (expand (join r after)) (expand (r :: after)) := by
  cases after with
  | nil => exact alikeLists_refl _
  | cons s rest =>
    obtain ⟨first, valid, follows, valid', tail⟩ := tiles
    simp only [join]
    split
    · next continued =>
      have equal := (continuedBy_iff.mp continued).2
      have length : (r.withStop s.extent.stop).extent.length =
          r.extent.length + s.extent.length := by
        simp only [Run.withStop, Extent.length]
        omega
      simp only [expand_cons, length, List.replicate_add, List.append_assoc]
      refine List.rel_append (alikeLists_refl _) (List.rel_append ?_ (alikeLists_refl _))
      exact alikeLists_replicate (Or.inr equal) _
    · exact alikeLists_refl _

theorem expand_mergeAt {start stop : Nat} {runs : Runs} (tiles : Tiles start stop runs) (i : Nat) :
    AlikeLists (expand (mergeAt i runs)) (expand runs) := by
  induction runs generalizing start i with
  | nil => cases i <;> exact .nil
  | cons r rest ih =>
    match i with
    | 0 => exact alikeLists_refl _
    | 1 => exact expand_join tiles
    | i + 2 => exact List.rel_append (alikeLists_refl _) (ih tiles.2.2 (i + 1))

end SyntaxPaint.Runs
